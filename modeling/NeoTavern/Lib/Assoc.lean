import Mathlib

-- Maps that keep the order in which their keys came in.
namespace Assoc

variable {κ ν : Type} [DecidableEq κ] {m : List (κ × ν)} {k l : κ} {v : ν}

def get (m : List (κ × ν)) (k : κ) : Option ν :=
  (m.find? (·.fst = k)).map (·.snd)

def delete (m : List (κ × ν)) (k : κ) : List (κ × ν) :=
  m.filter (·.fst ≠ k)

-- Replaces the value of a key in its place, or adds the key at the end.
def set (m : List (κ × ν)) (k : κ) (v : ν) : List (κ × ν) :=
  if (get m k).isSome then m.map fun e => if e.fst = k then (k, v) else e else m ++ [(k, v)]

@[simp]
theorem get_nil : get ([] : List (κ × ν)) k = none :=
  rfl

theorem get_cons {e : κ × ν} : get (e :: m) k = if e.fst = k then some e.snd else get m k := by
  rw [get, List.find?_cons]
  by_cases h : e.fst = k
  case pos => simp [h]
  case neg => simp [h, get]

theorem get_append {n : List (κ × ν)} : get (m ++ n) k = (get m k).or (get n k) := by
  induction m
  case nil          => simp
  case cons e m ih  =>
    rw [List.cons_append, get_cons, get_cons, ih]
    split <;> rfl

theorem mem_of_get (h : get m k = some v) : (k, v) ∈ m := by
  have ⟨e, he, hv⟩ := Option.map_eq_some_iff.mp h
  have hk : e.fst = k := by simpa using List.find?_some he
  have hm := List.mem_of_find?_eq_some he
  rwa [← hk, ← hv]

theorem get_eq_none_iff : get m k = none ↔ ∀ e ∈ m, e.fst ≠ k := by
  simp [get]

theorem isSome_get_iff : (get m k).isSome ↔ k ∈ m.map (·.fst) := by
  rw [← not_iff_not, Option.not_isSome_iff_eq_none, get_eq_none_iff]
  simp only [List.mem_map, not_exists, not_and, ne_eq]

@[simp]
theorem get_delete_self : get (delete m k) k = none := by
  rw [get_eq_none_iff]
  intro e he
  simpa using (List.mem_filter.mp he).right

theorem get_delete_of_ne (h : l ≠ k) : get (delete m k) l = get m l := by
  induction m
  case nil         => rfl
  case cons e m ih =>
    rw [delete, List.filter_cons, ← delete]
    by_cases he : e.fst = k
    case pos =>
      have hne : ¬k = l := fun hkl => h hkl.symm
      simp [he, ih, get_cons, hne]
    case neg => simp [he, get_cons, ih]

example : delete [(0, "a"), (1, "b"), (0, "c")] 0 = [(1, "b")] := by
  decide +kernel

theorem get_filter {p : κ → Bool} :
    get (m.filter fun e => p e.fst) k = if p k then get m k else none := by
  induction m
  case nil         => simp
  case cons e m ih =>
    rw [List.filter_cons]
    by_cases hk : e.fst = k
    case pos =>
      by_cases hp : p k
      case pos => simp [hk, hp, get_cons]
      case neg => simpa [hk, hp] using ih
    case neg =>
      by_cases hp : p e.fst
      case pos => simp [hk, hp, get_cons, ih]
      case neg => simp [hk, hp, get_cons, ih]

theorem get_map_pair {l : List κ} {f : κ → ν} (h : k ∈ l) : get (l.map fun a => (a, f a)) k = some (f k) := by
  induction l
  case nil => cases h
  case cons a l ih =>
    rw [List.map_cons, get_cons]
    by_cases ha : a = k
    case pos => rw [if_pos ha, ha]
    case neg => rw [if_neg ha, ih <| (List.mem_cons.mp h).resolve_left (Ne.symm ha)]

theorem get_map_replace : get (m.map fun e => if e.fst = k then (k, v) else e) l =
    if l = k then (get m k).map fun _ => v else get m l := by
  induction m
  case nil         => simp
  case cons e m ih =>
    rw [List.map_cons, get_cons, get_cons, get_cons, ih]
    by_cases he : e.fst = k
    case pos =>
      by_cases hl : l = k
      case pos => simp [he, hl]
      case neg =>
        have hne : ¬k = l := fun hkl => hl hkl.symm
        simp [he, hl, hne]
    case neg =>
      by_cases hl : l = k
      case pos => simp [he, hl]
      case neg => simp [he, hl]

@[simp]
theorem get_set_self : get (set m k v) k = some v := by
  rw [set]
  split
  case isTrue h =>
    have ⟨w, hw⟩ := Option.isSome_iff_exists.mp h
    rw [get_map_replace, if_pos rfl, hw, Option.map_some]
  case isFalse h =>
    have hnone : get m k = none := by simpa using h
    rw [get_append, hnone]
    simp [get_cons]

theorem get_set_of_ne (h : l ≠ k) : get (set m k v) l = get m l := by
  rw [set]
  split
  case isTrue  => rw [get_map_replace, if_neg h]
  case isFalse =>
    have hne : ¬k = l := fun hkl => h hkl.symm
    rw [get_append, get_cons, if_neg hne, get_nil, Option.or_none]

theorem set_of_not_mem (h : k ∉ m.map (·.fst)) : set m k v = m ++ [(k, v)] := by
  have hnone : get m k = none := get_eq_none_iff.mpr fun e he hk => h <| List.mem_map.mpr ⟨e, he, hk⟩
  rw [set, hnone]
  rfl

-- New keys come in one after the other.
theorem foldl_set {entries : List (κ × ν)} (h : ((m ++ entries).map (·.fst)).Nodup) :
    entries.foldl (fun m e => set m e.fst e.snd) m = m ++ entries := by
  induction entries generalizing m
  case nil => exact (List.append_nil m).symm
  case cons e entries ih =>
    rw [List.append_cons] at h
    have hfirst : ((m ++ [e]).map (·.fst)).Nodup := by
      rw [List.map_append] at h
      exact (List.nodup_append.mp h).left
    have hout : e.fst ∉ m.map (·.fst) := by
      rw [List.map_append, List.nodup_append] at hfirst
      exact fun hm => hfirst.right.right _ hm _ List.mem_cons_self rfl
    rw [List.foldl_cons, set_of_not_mem hout, ih h, ← List.append_cons]

theorem length_set : (set m k v).length = if (get m k).isSome then m.length else m.length + 1 := by
  rw [set]
  split
  case isTrue  => exact List.length_map ..
  case isFalse => exact List.length_append

-- Whatever is in a map after a change was in it before, or is what has been set.
theorem mem_set {e : κ × ν} (h : e ∈ set m k v) : e = (k, v) ∨ e ∈ m := by
  rw [set] at h
  split at h
  · have ⟨x, hx, heq⟩ := List.mem_map.mp h
    split at heq
    · exact .inl heq.symm
    · exact .inr <| heq ▸ hx
  · rcases List.mem_append.mp h with h | h
    · exact .inr h
    · exact .inl <| List.mem_singleton.mp h

theorem mem_delete {e : κ × ν} : e ∈ delete m k ↔ e ∈ m ∧ e.fst ≠ k := by
  simp [delete]

example : set [(0, "a"), (1, "b")] 0 "c" = [(0, "c"), (1, "b")] := by
  decide +kernel

section Nodup

theorem length_delete_lt (h : get m k = some v) : (delete m k).length < m.length :=
  List.length_filter_lt_length_iff_exists.mpr ⟨(k, v), mem_of_get h, by simp⟩

theorem map_fst_replace :
    (m.map fun e => if e.fst = k then (k, v) else e).map (·.fst) = m.map (·.fst) := by
  rw [List.map_map]
  refine List.map_congr_left fun e _ => ?_
  by_cases h : e.fst = k
  case pos => simp [h]
  case neg => simp [h]

theorem nodup_set (h : (m.map (·.fst)).Nodup) : ((set m k v).map (·.fst)).Nodup := by
  rw [set]
  split
  case isTrue       => rwa [map_fst_replace]
  case isFalse hnew =>
    have hnone : get m k = none := by simpa using hnew
    rw [List.map_append, List.map_singleton, List.nodup_append]
    refine ⟨h, List.nodup_singleton _, fun l hl l' hl' => ?_⟩
    have ⟨e, he, heq⟩ := List.mem_map.mp hl
    rw [List.mem_singleton.mp hl', ← heq]
    exact get_eq_none_iff.mp hnone e he

theorem nodup_delete (h : (m.map (·.fst)).Nodup) : ((delete m k).map (·.fst)).Nodup :=
  h.sublist <| List.filter_sublist.map _

theorem get_of_mem (h : (m.map (·.fst)).Nodup) (hmem : (k, v) ∈ m) : get m k = some v := by
  induction m
  case nil         => cases hmem
  case cons e m ih =>
    rw [List.map_cons, List.nodup_cons] at h
    rw [get_cons]
    cases hmem
    case head   => rw [if_pos rfl]
    case tail h' =>
      have hne : e.fst ≠ k := fun heq => h.left <| heq ▸ List.mem_map_of_mem h'
      rw [if_neg hne, ih h.right h']

theorem get_eq_of_perm {n : List (κ × ν)} (h : m.Perm n) (hm : (m.map (·.fst)).Nodup) : get m k = get n k := by
  cases hn : get n k
  case some v => exact get_of_mem hm <| h.mem_iff.mpr <| mem_of_get hn
  case none =>
    rw [get_eq_none_iff] at hn ⊢
    intro e he
    exact hn e <| h.mem_iff.mp he

-- A sum over the values of a map.
def sum (f : ν → Nat) (m : List (κ × ν)) : Nat :=
  (m.map fun e => f e.snd).sum

omit [DecidableEq κ] in
theorem sum_cons {f : ν → Nat} {e : κ × ν} : sum f (e :: m) = f e.snd + sum f m := by
  simp [sum]

theorem sum_replace_of_none {f : ν → Nat} (h : get m k = none) :
    sum f (m.map fun e => if e.fst = k then (k, v) else e) = sum f m := by
  rw [get_eq_none_iff] at h
  rw [sum, List.map_map, sum]
  congr 1
  refine List.map_congr_left fun e he => ?_
  simp [h e he]

theorem get_of_nodup_cons {e : κ × ν} (h : ((e :: m).map (·.fst)).Nodup) : get m e.fst = none := by
  rw [get_eq_none_iff]
  intro x hx heq
  rw [List.map_cons, List.nodup_cons] at h
  exact h.left <| heq ▸ List.mem_map_of_mem hx

theorem get_filter_snd {p : ν → Bool} (h : (m.map (·.fst)).Nodup) :
    get (m.filter fun e => p e.snd) k = (get m k).filter p := by
  induction m
  case nil         => rfl
  case cons e m ih =>
    have ih := ih (List.nodup_cons.mp h).right
    by_cases hk : e.fst = k
    case pos =>
      have hnone : get m k = none := hk ▸ get_of_nodup_cons h
      by_cases hp : p e.snd
      case pos => simp [get_cons, hk, hp, Option.filter]
      case neg => simp [get_cons, hk, hp, ih, hnone, Option.filter]
    case neg =>
      by_cases hp : p e.snd
      case pos => simp [get_cons, hk, hp, ih]
      case neg => simp [get_cons, hk, hp, ih]

theorem sum_replace {f : ν → Nat} (h : (m.map (·.fst)).Nodup) {w : ν} (hget : get m k = some w) :
    sum f (m.map fun e => if e.fst = k then (k, v) else e) + f w = sum f m + f v := by
  induction m
  case nil         => cases hget
  case cons e m ih =>
    rw [List.map_cons, sum_cons, sum_cons]
    rw [get_cons] at hget
    split at hget
    case isTrue heq =>
      subst heq
      rw [sum_replace_of_none <| get_of_nodup_cons h, if_pos rfl, ← Option.some.inj hget]
      dsimp only
      omega
    case isFalse hne =>
      have := ih (List.nodup_cons.mp h).right hget
      rw [if_neg hne]
      omega

theorem sum_set {f : ν → Nat} (h : (m.map (·.fst)).Nodup) :
    sum f (set m k v) + (get m k).elim 0 f = sum f m + f v := by
  rw [set]
  cases hget : get m k
  case none   => simp [sum]
  case some w =>
    rw [Option.isSome_some, if_pos rfl]
    exact sum_replace h hget

theorem sum_delete {f : ν → Nat} (h : (m.map (·.fst)).Nodup) :
    sum f (delete m k) + (get m k).elim 0 f = sum f m := by
  induction m
  case nil         => rfl
  case cons e m ih =>
    have ih := ih (List.nodup_cons.mp h).right
    rw [delete, List.filter_cons, ← delete, get_cons]
    by_cases heq : e.fst = k
    case pos =>
      have hnone : get m k = none := heq ▸ get_of_nodup_cons h
      rw [hnone, Option.elim_none] at ih
      simp [heq, sum_cons]
      omega
    case neg =>
      simp [heq, sum_cons]
      omega

end Nodup

end Assoc
