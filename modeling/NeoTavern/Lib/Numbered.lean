import Mathlib

-- A log whose entries are numbered from zero, read page by page from a cursor: the number of the
-- last entry that was read, or -1.
def Numbered {α : Type} (num : α → Int) (xs : List α) : Prop :=
  xs.map num = (List.range xs.length).map Int.ofNat

namespace Numbered

variable {α : Type} {num : α → Int} {xs ys : List α}

theorem nil : Numbered num ([] : List α) :=
  rfl

theorem take (h : Numbered num xs) (n : Nat) : Numbered num (xs.take n) := by
  rw [Numbered, List.map_take, h, ← List.map_take, List.take_range, List.length_take]

theorem of_prefix (h : Numbered num ys) (hp : xs <+: ys) : Numbered num xs := by
  rw [List.prefix_iff_eq_take.mp hp]
  exact h.take _

theorem num_getElem (h : Numbered num xs) {i : Nat} (hi : i < xs.length) : num xs[i] = i := by
  have := congrArg (·[i]?) h
  simpa [hi] using this

-- The entries after a cursor.
theorem filter_lt (h : Numbered num xs) {c : Int} (hc : -1 ≤ c) :
    xs.filter (c < num ·) = xs.drop (c + 1).toNat := by
  induction xs using List.reverseRecOn
  case nil => simp
  case append_singleton xs x ih =>
    have hp : Numbered num xs := h.of_prefix <| List.prefix_append ..
    have hx : num x = xs.length := by
      have := h.num_getElem (i := xs.length) (by simp)
      simpa using this
    rw [List.filter_append, ih hp, List.drop_append]
    by_cases hl : c < xs.length
    case pos =>
      have : (c + 1).toNat - xs.length = 0 := by omega
      simp [this, hx, hl]
    case neg =>
      have : (c + 1).toNat - xs.length ≠ 0 := by omega
      simp [hx, hl]
      omega

theorem pairwise (h : Numbered num xs) : xs.Pairwise fun x y => num x < num y := by
  rw [← List.pairwise_map, h, List.pairwise_map]
  exact List.pairwise_lt_range.imp fun h => Int.ofNat_lt.mpr h

-- Reading in the order of the numbers is reading in the order of the log.
theorem mergeSort_drop (h : Numbered num xs) (n : Nat) :
    (xs.drop n).mergeSort (num · ≤ num ·) = xs.drop n := by
  apply List.mergeSort_of_pairwise
  exact (h.pairwise.sublist <| List.drop_sublist n xs).imp fun h => by simpa using h.le

-- The cursor after reading `xs` from the cursor `c` on.
def cursorAfter (num : α → Int) (c : Int) (xs : List α) : Int :=
  (xs.getLast?.map num).getD c

-- The cursor after a page.
theorem last_drop_take (h : Numbered num xs) {k n : Nat} {x : α}
    (hx : ((xs.drop k).take n).getLast? = some x) :
    num x + 1 = k + ((xs.drop k).take n).length := by
  have hne : (xs.drop k).take n ≠ [] := by
    rintro he
    simp [he] at hx
  have hl := List.getLast?_eq_some_getLast hne |>.symm.trans hx
  have hlen : 0 < ((xs.drop k).take n).length := List.length_pos_of_ne_nil hne
  rw [← Option.some.inj hl, List.getLast_eq_getElem, List.getElem_take, List.getElem_drop,
    h.num_getElem]
  omega

theorem cursorAfter_eq (h : Numbered num xs) {c : Int} (hc : -1 ≤ c)
    (hp : ys <+: xs.drop (c + 1).toNat) : cursorAfter num c ys = c + ys.length := by
  unfold cursorAfter
  cases hx : ys.getLast?
  case none => simp [List.getLast?_eq_none_iff.mp hx]
  case some x =>
    have he := List.prefix_iff_eq_take.mp hp
    rw [he] at hx
    have hl := h.last_drop_take hx
    rw [← he] at hl
    simp only [Option.map_some, Option.getD_some]
    omega

-- What follows a part of the log that starts at a cursor.
theorem drop_eq_append (h : Numbered num xs) {c : Int} (hc : -1 ≤ c)
    (hp : ys <+: xs.drop (c + 1).toNat) :
    xs.drop (c + 1).toNat = ys ++ xs.drop (cursorAfter num c ys + 1).toNat := by
  have hl : (cursorAfter num c ys + 1).toNat = (c + 1).toNat + ys.length := by
    rw [h.cursorAfter_eq hc hp]
    omega
  rw [hl, ← List.drop_drop]
  obtain ⟨rest, hr⟩ := hp
  rw [← hr, List.drop_left]

theorem mem_num_lt (h : Numbered num xs) {x : α} (hx : x ∈ xs) : 0 ≤ num x ∧ num x < xs.length := by
  have ⟨i, hi, he⟩ := List.getElem_of_mem hx
  have hn := h.num_getElem hi
  rw [he] at hn
  omega

theorem mem_le_cursorAfter (h : Numbered num xs) {c : Int} {x : α} (hc : -1 ≤ c)
    (hp : ys <+: xs.drop (c + 1).toNat) (hx : x ∈ ys) : num x ≤ cursorAfter num c ys := by
  have ⟨i, hi, he⟩ := List.getElem_of_mem hx
  have hn : num x = (c + 1).toNat + i := by
    have hd := hp.getElem hi
    rw [← he, hd, List.getElem_drop, h.num_getElem]
    omega
  rw [h.cursorAfter_eq hc hp]
  omega

-- The entries of a shorter log are the ones with the smaller numbers.
theorem mem_of_initial (h : Numbered num ys) {x : α} (hp : xs <+: ys) (hx : x ∈ ys)
    (hl : num x < xs.length) : x ∈ xs := by
  have ⟨i, hi, he⟩ := List.getElem_of_mem hx
  have hn := h.num_getElem hi
  rw [he] at hn
  have hi' : i < xs.length := by omega
  rw [← he, ← hp.getElem hi']
  exact List.getElem_mem hi'

-- An entry above a cursor and not above the one after a page is on the page.
theorem mem_page (h : Numbered num xs) {c : Int} {x : α} (hc : -1 ≤ c)
    (hp : ys <+: xs.drop (c + 1).toNat) (hx : x ∈ xs) (hl : c < num x)
    (hu : num x ≤ cursorAfter num c ys) : x ∈ ys := by
  have hd : x ∈ xs.drop (c + 1).toNat := by
    rw [← h.filter_lt hc]
    simpa using ⟨hx, hl⟩
  rw [h.drop_eq_append hc hp, List.mem_append] at hd
  rcases hd with hd | hd
  · exact hd
  · have hcur : -1 ≤ cursorAfter num c ys := by
      rw [h.cursorAfter_eq hc hp]
      omega
    rw [← h.filter_lt hcur, List.mem_filter] at hd
    have := hd.right
    simp only [decide_eq_true_eq] at this
    omega

end Numbered
