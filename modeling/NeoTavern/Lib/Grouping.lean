import Mathlib
import NeoTavern.Lib.Assoc

-- Elements that are collected under their keys, each group in the order in which they come.
namespace Assoc

variable {κ ν : Type} [DecidableEq κ] {m : List (κ × List ν)} {e : κ × ν} {k : κ}

def group (m : List (κ × List ν)) (k : κ) : List ν :=
  (get m k).getD []

def push (m : List (κ × List ν)) (e : κ × ν) : List (κ × List ν) :=
  set m e.fst <| group m e.fst ++ [e.snd]

-- The elements of all groups with their keys.
def ungrouped (m : List (κ × List ν)) : List (κ × ν) :=
  m.flatMap fun g => g.snd.map (g.fst, ·)

theorem group_push : group (push m e) k = group m k ++ if e.fst = k then [e.snd] else [] := by
  rw [push, group]
  by_cases h : e.fst = k
  case pos => rw [h, get_set_self, Option.getD_some, if_pos rfl]
  case neg => rw [get_set_of_ne (Ne.symm h), if_neg h, List.append_nil, group]

theorem group_foldl_push {es : List (κ × ν)} :
    group (es.foldl push m) k = group m k ++ (es.filter (·.fst = k)).map (·.snd) := by
  induction es generalizing m
  case nil => simp
  case cons e es ih =>
    rw [List.foldl_cons, ih, group_push, List.append_assoc]
    by_cases h : e.fst = k
    case pos => simp [h]
    case neg => simp [h]

theorem ungrouped_replace {v : List ν} {x : ν} (h : (m.map (·.fst)).Nodup) (hg : get m k = some v) :
    (ungrouped (m.map fun e => if e.fst = k then (k, v ++ [x]) else e)).Perm
      (ungrouped m ++ [(k, x)]) := by
  induction m
  case nil => cases hg
  case cons g m ih =>
    have ⟨hnew, hnodup⟩ := List.nodup_cons.mp h
    rw [get_cons] at hg
    simp only [ungrouped, List.map_cons, List.flatMap_cons, List.append_assoc]
    split at hg
    case isTrue hk =>
      -- No other group has the key.
      have hrest : (m.map fun e => if e.fst = k then (k, v ++ [x]) else e) = m := by
        apply (List.map_congr_left _).trans (List.map_id m)
        intro g' hg'
        have hne : g'.fst ≠ k := fun he => hnew <| List.mem_map.mpr ⟨g', hg', he.trans hk.symm⟩
        rw [if_neg hne, id]
      rw [if_pos hk, hrest, ← Option.some.inj hg, hk, List.map_append, List.append_assoc]
      exact List.Perm.append_left _ List.perm_append_comm
    case isFalse hk =>
      rw [if_neg hk]
      exact List.Perm.append_left _ <| ih hnodup hg

theorem ungrouped_push (h : (m.map (·.fst)).Nodup) :
    (ungrouped (push m e)).Perm (ungrouped m ++ [e]) := by
  cases hg : get m e.fst
  case none   => simp [push, group, set, hg, ungrouped]
  case some v =>
    rw [push, group, set, hg, Option.getD_some, Option.isSome_some, if_pos rfl]
    exact ungrouped_replace h hg

theorem ungrouped_foldl_push {es : List (κ × ν)} (h : (m.map (·.fst)).Nodup) :
    (ungrouped (es.foldl push m)).Perm (ungrouped m ++ es) := by
  induction es generalizing m
  case nil => simp
  case cons e es ih =>
    have hpush := (ungrouped_push h (e := e)).append_right es
    rw [List.append_assoc, List.singleton_append] at hpush
    exact (ih <| nodup_set h).trans hpush

example : [(0, "a"), (1, "b"), (0, "c")].foldl push [] = [(0, ["a", "c"]), (1, ["b"])] := by
  decide +kernel

omit [DecidableEq κ] in
theorem sum_filter_groups {p : κ → Bool} :
    ((m.filter (p ·.fst)).map (·.snd.length)).sum = (ungrouped m).countP (p ·.fst) := by
  induction m
  case nil => rfl
  case cons g m ih =>
    rw [ungrouped, List.flatMap_cons, List.countP_append, ← ungrouped, ← ih, List.filter_cons,
      List.countP_map]
    by_cases h : p g.fst
    case pos => simp [h, Function.comp_def]
    case neg => simp [h, Function.comp_def]

theorem countP_mem_cons {es : List (κ × ν)} {ks : List κ} (h : k ∉ ks) :
    es.countP (·.fst ∈ k :: ks) = es.countP (·.fst = k) + es.countP (·.fst ∈ ks) := by
  induction es
  case nil => rfl
  case cons e es ih =>
    rw [List.countP_cons, List.countP_cons, List.countP_cons, ih]
    by_cases hk : e.fst = k
    case pos => simp [hk, h]; omega
    case neg => simp [hk]; omega

-- The groups of some keys hold what has one of these keys.
theorem sum_groups {es : List (κ × ν)} {ks : List κ} (h : ks.Nodup) :
    (ks.map fun k => (es.filter (·.fst = k)).length).sum = es.countP (·.fst ∈ ks) := by
  induction ks
  case nil => simp
  case cons k ks ih =>
    have ⟨hk, hks⟩ := List.nodup_cons.mp h
    rw [List.map_cons, List.sum_cons, ih hks, countP_mem_cons hk, ← List.countP_eq_length_filter]

end Assoc
