import Mathlib
import NeoTavern.Lib.InternetAddress

namespace Internet

section Digits

theorem digitChar_inj : ∀ m < 16, ∀ n < 16, m.digitChar = n.digitChar → m = n := by
  decide

theorem digitChar_ne : ∀ m < 16, m.digitChar ≠ ':' ∧ m.digitChar ≠ '.' ∧ m.digitChar ≠ '[' ∧
    m.digitChar.toLower = m.digitChar := by
  decide

variable {m n : Nat} {ds : List Nat}

theorem hexDigits_lt (h : n < 65536) : ∀ d ∈ hexDigits n, d < 16 := by
  rw [hexDigits]
  intro d hd
  split at hd
  case isTrue  => simp at hd; omega
  case isFalse =>
    split at hd
    case isTrue  => simp at hd; omega
    case isFalse =>
      split at hd
      case isTrue  => simp at hd; omega
      case isFalse => simp at hd; omega

theorem map_digitChar_prefix (es : List Nat) (hds : ∀ d ∈ ds, d < 16) (hes : ∀ d ∈ es, d < 16) :
    ds.map Nat.digitChar <+: es.map Nat.digitChar ↔ ds <+: es := by
  induction ds generalizing es
  case nil => simp
  case cons d ds ih =>
    cases es
    case nil => simp
    case cons e es =>
      have hd := hds d (List.mem_cons_self ..)
      have he := hes e (List.mem_cons_self ..)
      have ih := ih es (fun x hx => hds x <| List.mem_cons_of_mem _ hx)
        fun x hx => hes x <| List.mem_cons_of_mem _ hx
      simp only [List.map_cons, List.cons_prefix_cons, ih]
      constructor
      · intro ⟨hchar, hrest⟩
        exact ⟨digitChar_inj d hd e he hchar, hrest⟩
      · intro ⟨hdigit, hrest⟩
        exact ⟨congrArg _ hdigit, hrest⟩

theorem prefix_hexGroup_iff (ds : List Nat) (hn : n < 65536) (hds : ∀ d ∈ ds, d < 16) :
    ds.map Nat.digitChar <+: hexGroup n ↔ ds <+: hexDigits n :=
  map_digitChar_prefix _ hds <| hexDigits_lt hn

theorem fe80_prefix_iff (hn : n < 65536) : ['f', 'e', '8', '0'] <+: hexGroup n ↔ n = 0xfe80 := by
  refine (prefix_hexGroup_iff [15, 14, 8, 0] hn (by decide)).trans ?_
  rw [hexDigits]
  split
  case isTrue  => simp; omega
  case isFalse =>
    split
    case isTrue  => simp; omega
    case isFalse =>
      split
      case isTrue  => simp; omega
      case isFalse => simp; omega

-- A group that begins with `fc` or `fd`, whatever the number of its digits.
theorem fc_fd_prefix_iff (hn : n < 65536) : ['f', 'c'] <+: hexGroup n ∨ ['f', 'd'] <+: hexGroup n ↔
    n / 2 = 0x7e ∨ n / 0x20 = 0x7e ∨ n / 0x200 = 0x7e := by
  have hc := prefix_hexGroup_iff [15, 12] hn (by decide)
  have hd := prefix_hexGroup_iff [15, 13] hn (by decide)
  refine (or_congr hc hd).trans ?_
  rw [hexDigits]
  split
  case isTrue  => simp; omega
  case isFalse =>
    split
    case isTrue  => simp; omega
    case isFalse =>
      split
      case isTrue  => simp; omega
      case isFalse => simp; omega

theorem ffff_prefix_iff (hn : n < 65536) : ['f', 'f', 'f', 'f'] <+: hexGroup n ↔ n = 0xffff := by
  refine (prefix_hexGroup_iff [15, 15, 15, 15] hn (by decide)).trans ?_
  rw [hexDigits]
  split
  case isTrue  => simp; omega
  case isFalse =>
    split
    case isTrue  => simp; omega
    case isFalse =>
      split
      case isTrue  => simp; omega
      case isFalse => simp; omega

theorem hexGroup_eq_one_iff (hn : n < 65536) : hexGroup n = ['1'] ↔ n = 1 := by
  have h := prefix_hexGroup_iff [1] hn (by decide)
  constructor
  · intro heq
    have hdigits : [1] <+: hexDigits n := h.mp (heq ▸ List.prefix_rfl)
    have hlength : (hexDigits n).length = 1 := by
      have := congrArg List.length heq
      rwa [hexGroup, List.length_map] at this
    rw [hexDigits] at hdigits hlength
    split at hlength
    case isTrue hlt => simpa [hlt, eq_comm] using hdigits
    case isFalse    =>
      split at hlength
      case isTrue  => cases hlength
      case isFalse =>
        split at hlength
        case isTrue  => cases hlength
        case isFalse => cases hlength
  · intro heq
    rw [heq]
    rfl

theorem mem_hexGroup (hn : n < 65536) {c : Char} (h : c ∈ hexGroup n) :
    c ≠ ':' ∧ c ≠ '.' ∧ c ≠ '[' ∧ c.toLower = c := by
  have ⟨d, hd, heq⟩ := List.mem_map.mp h
  exact heq ▸ digitChar_ne d (hexDigits_lt hn d hd)

example : hexGroup 0xfe80 = "fe80".toList := by
  decide +kernel

theorem hexGroup_ne_nil : hexGroup n ≠ [] := by
  rw [hexGroup, hexDigits]
  split
  case isTrue  => simp
  case isFalse =>
    split
    case isTrue  => simp
    case isFalse => split <;> simp

end Digits

section Zeros

variable {g : Nat} {gs : List Nat}

theorem zeros_cons : zeros (g :: gs) = if g = 0 then zeros gs + 1 else 0 := by
  rw [zeros, List.takeWhile_cons]
  by_cases h : g = 0
  case pos => simp [h, zeros]
  case neg => simp [h]

@[simp]
theorem zeros_nil : zeros [] = 0 :=
  rfl

theorem zeros_le (gs : List Nat) : zeros gs ≤ gs.length :=
  (List.takeWhile_prefix _).length_le

theorem zeros_drop (gs : List Nat) {i : Nat} (h : i ≤ zeros gs) : zeros (gs.drop i) + i = zeros gs := by
  induction gs generalizing i
  case nil =>
    rw [Nat.le_zero.mp h]
    rfl
  case cons g gs ih =>
    cases i
    case zero   => rfl
    case succ i =>
      rw [zeros_cons] at h ⊢
      split at h
      case isFalse   => omega
      case isTrue hg =>
        have := ih (i := i) (by omega)
        rw [if_pos hg, List.drop_succ_cons]
        omega

private def longer (gs : List Nat) (best : Nat × Nat) (i : Nat) : Nat × Nat :=
  if best.snd < zeros (gs.drop i) then (i, zeros (gs.drop i)) else best

private theorem longest_range (gs : List Nat) (k : Nat) :
    let best := (List.range k).foldl (longer gs) (0, 0)
    (∀ i < k, zeros (gs.drop i) ≤ best.snd) ∧ best.snd ≤ zeros (gs.drop best.fst) ∧
      (∀ i < best.fst, zeros (gs.drop i) < best.snd) := by
  induction k
  case zero => simp
  case succ k ih =>
    have ⟨hall, hbest, hfirst⟩ := ih
    rw [List.range_succ, List.foldl_concat, longer]
    split
    case isTrue hlt =>
      refine ⟨fun i hi => ?_, Nat.le_refl _, fun i hi => Nat.lt_of_le_of_lt (hall i hi) hlt⟩
      cases Nat.lt_or_eq_of_le (Nat.le_of_lt_succ hi)
      case inl hi => exact Nat.le_of_lt <| Nat.lt_of_le_of_lt (hall i hi) hlt
      case inr hi => exact hi ▸ Nat.le_refl _
    case isFalse hge =>
      refine ⟨fun i hi => ?_, hbest, hfirst⟩
      cases Nat.lt_or_eq_of_le (Nat.le_of_lt_succ hi)
      case inl hi => exact hall i hi
      case inr hi =>
        rw [hi]
        exact Nat.not_lt.mp hge

-- The run is the longest, and longer than all that begin before it.
theorem longestZeros_spec (gs : List Nat) :
    (∀ i < gs.length, zeros (gs.drop i) ≤ (longestZeros gs).snd) ∧
      (longestZeros gs).snd ≤ zeros (gs.drop (longestZeros gs).fst) ∧
      (∀ i < (longestZeros gs).fst, zeros (gs.drop i) < (longestZeros gs).snd) :=
  longest_range gs gs.length

example : longestZeros [1, 0, 0, 1, 0] = (1, 2) := by
  decide +kernel

-- The run of zeros at the beginning.
theorem getElem?_zeros {i : Nat} (h : i < zeros gs) : gs[i]? = some 0 := by
  induction gs generalizing i
  case nil => cases h
  case cons g gs ih =>
    rw [zeros_cons] at h
    split at h
    case isFalse   => cases h
    case isTrue hg =>
      cases i
      case zero   => simp [hg]
      case succ i => exact ih <| Nat.lt_of_succ_lt_succ h

theorem getElem?_zeros_ne : gs[zeros gs]? ≠ some 0 := by
  induction gs
  case nil          => simp
  case cons g gs ih =>
    rw [zeros_cons]
    split
    case isTrue     => exact ih
    case isFalse hg => simpa using hg

end Zeros

section V4

variable {x : V4} {c : Char}

theorem mem_text : ∀ c ∈ x.text, c.isDigit ∨ c = '.' := by
  intro c hc
  simp only [V4.text, List.map_cons, List.map_nil, List.intercalate_cons_cons,
    List.intercalate_singleton, List.mem_append, List.mem_singleton] at hc
  have hdigit {n : Nat} (h : c ∈ Nat.toDigits 10 n) : c.isDigit :=
    Nat.isDigit_of_mem_toDigits (by decide) (by decide) h
  rcases hc with (hc | hc) | (hc | hc) | (hc | hc) | hc
  · exact .inl <| hdigit hc
  · exact .inr hc
  · exact .inl <| hdigit hc
  · exact .inr hc
  · exact .inl <| hdigit hc
  · exact .inr hc
  · exact .inl <| hdigit hc

theorem dot_mem_text : '.' ∈ x.text := by
  simp [V4.text, List.intercalate_cons_cons]

end V4

section Join

variable {g h : Nat} {gs : List Nat}

@[simp]
theorem join_nil : join [] = [] :=
  rfl

@[simp]
theorem join_singleton : join [g] = hexGroup g := by
  simp [join, List.intercalate_singleton]

theorem join_cons_cons : join (g :: h :: gs) = hexGroup g ++ ':' :: join (h :: gs) := by
  simp [join, List.intercalate_cons_cons]

-- A text of groups goes on with a colon after its first group, unless that is all.
theorem join_cons (hgs : gs ≠ []) : join (g :: gs) = hexGroup g ++ ':' :: join gs := by
  cases gs
  case nil       => exact absurd rfl hgs
  case cons h gs => exact join_cons_cons

theorem join_concat (hgs : gs ≠ []) : join (gs ++ [g]) = join gs ++ ':' :: hexGroup g := by
  induction gs
  case nil          => exact absurd rfl hgs
  case cons h gs ih =>
    by_cases hnil : gs = []
    case pos => rw [hnil, List.cons_append, List.nil_append, join_cons_cons, join_singleton, join_singleton]
    case neg =>
      rw [List.cons_append, join_cons (by simp), ih hnil, join_cons hnil, List.append_assoc,
        List.cons_append]

theorem mem_join (hlt : ∀ g ∈ gs, g < 65536) {c : Char} (hc : c ∈ join gs) :
    c ≠ '.' ∧ c ≠ '[' ∧ c.toLower = c := by
  induction gs
  case nil => cases hc
  case cons g gs ih =>
    have hg (hc : c ∈ hexGroup g) : c ≠ '.' ∧ c ≠ '[' ∧ c.toLower = c :=
      (mem_hexGroup (hlt g <| List.mem_cons_self ..) hc).right
    have ih := ih fun x hx => hlt x <| List.mem_cons_of_mem _ hx
    by_cases hgs : gs = []
    case pos =>
      rw [hgs, join_singleton] at hc
      exact hg hc
    case neg =>
      rw [join_cons hgs] at hc
      rcases List.mem_append.mp hc with hc | hc
      · exact hg hc
      · cases hc
        case head    => decide
        case tail hc => exact ih hc

end Join

namespace V6

variable {x : V6} {n : Nat}

-- The longest run of zeros is a short one at the beginning, and `ffff` comes after it.
def Padded (x : V6) : Prop :=
  (longestZeros x.groups).fst = 0 ∧ 2 ≤ (longestZeros x.groups).snd ∧
    (longestZeros x.groups).snd < 5 ∧ x.groups[(longestZeros x.groups).snd]? = some 0xffff

instance : Decidable x.Padded :=
  inferInstanceAs <| Decidable (_ ∧ _)

-- The texts of addresses.
inductive Shape (x : V6) : Prop
  | unspecified (is : x.Unspecified) (text : x.text = [':', ':'])
  | loopback (is : x.Loopback) (text : x.text = [':', ':', '1'])
  | mapped (is : x.Mapped) (text : x.text = [':', ':', 'f', 'f', 'f', 'f', ':'] ++ x.low.text)
  | padded (is : x.Padded) (gs : List Nat) (lt : ∀ g ∈ gs, g < 65536)
      (text : x.text = [':', ':', 'f', 'f', 'f', 'f', ':'] ++ join (gs ++ [x.g₇.val]))
  | short (rest : Text) (text : x.text = [':', ':'] ++ rest) (first : x.g₀ = 0)
      (one : rest ≠ [] ∧ rest ≠ ['1']) (ffff : ¬['f', 'f', 'f', 'f', ':'] <+: rest)
      (other : ¬x.Unspecified ∧ ¬x.Loopback ∧ ¬x.Mapped ∧ ¬x.Padded)
  | full (rest : Text) (text : x.text = hexGroup x.g₀ ++ ':' :: rest)
      (other : ¬x.Unspecified ∧ ¬x.Loopback ∧ ¬x.Mapped ∧ ¬x.Padded)

theorem groups_lt : ∀ g ∈ x.groups, g < 65536 := by
  intro g hg
  simp only [groups, List.mem_cons, List.not_mem_nil, or_false] at hg
  omega

theorem hexText_of_run (h : longestZeros x.groups = (0, n)) (hn : 2 ≤ n) :
    x.hexText = [':', ':'] ++ join (x.groups.drop n) := by
  rw [hexText, h]
  dsimp only
  rw [if_neg (Nat.not_lt.mpr hn), Nat.zero_add, List.take_zero, join_nil, List.nil_append]

-- Without zeros at the beginning to leave out, a text begins with the first group.
theorem hexText_of_not_run (h : (longestZeros x.groups).fst ≠ 0 ∨ (longestZeros x.groups).snd < 2) :
    ∃ rest, x.hexText = hexGroup x.g₀ ++ ':' :: rest := by
  cases hrun : longestZeros x.groups
  case mk base n =>
    rw [hrun] at h
    rw [hexText, hrun]
    dsimp only at h ⊢
    by_cases hn : n < 2
    case pos =>
      rw [if_pos hn, groups, join_cons_cons]
      exact ⟨_, rfl⟩
    case neg =>
      rw [if_neg hn]
      cases base
      case zero      => exact absurd h (by simp [hn])
      case succ base =>
        rw [groups, List.take_succ_cons]
        cases base
        case zero      => exact ⟨':' :: join (x.groups.drop (1 + n)), by simp [groups]⟩
        case succ base => exact ⟨_, by rw [List.take_succ_cons, join_cons_cons, List.append_assoc,
          List.append_assoc, List.cons_append]⟩

theorem colon_mem_hexText : ':' ∈ x.hexText := by
  by_cases hrun : (longestZeros x.groups).fst ≠ 0 ∨ (longestZeros x.groups).snd < 2
  case pos =>
    have ⟨rest, hrest⟩ := hexText_of_not_run hrun
    rw [hrest]
    exact List.mem_append_right _ <| List.mem_cons_self ..
  case neg =>
    push Not at hrun
    rw [hexText_of_run (Prod.ext hrun.left rfl) hrun.right]
    exact List.mem_cons_self ..

theorem text_of_ne (h : longestZeros x.groups ≠ (0, 6))
    (h' : longestZeros x.groups = (0, 5) → x.g₅ ≠ 0xffff) : x.text = x.hexText := by
  rw [text, if_neg h, if_neg fun hrun => h' hrun.left hrun.right]

-- A run at the beginning is as long as the zeros there.
theorem zeros_of_run (h : longestZeros x.groups = (0, n)) : zeros x.groups = n := by
  have ⟨hall, hbest, _⟩ := longestZeros_spec x.groups
  have hle := hall 0 (by simp [groups])
  rw [h] at hle hbest
  exact Nat.le_antisymm hle hbest

theorem Unspecified.zeros_eq (h : x.Unspecified) : zeros x.groups = 8 := by
  rw [h]
  decide

theorem Loopback.zeros_eq (h : x.Loopback) : zeros x.groups = 7 := by
  rw [h]
  decide

theorem Mapped.zeros_eq (h : x.Mapped) : zeros x.groups = 5 := by
  rw [← List.take_append_drop 6 x.groups, h]
  simp [zeros_cons]

theorem Compatible.le_zeros (h : x.Compatible) : 6 ≤ zeros x.groups := by
  rw [← List.take_append_drop 6 x.groups, h]
  simp [zeros_cons]

-- What begins with many zeros has its longest run there.
theorem not_of_not_run (h : (longestZeros x.groups).fst ≠ 0 ∨ (longestZeros x.groups).snd < 2) :
    ¬x.Unspecified ∧ ¬x.Loopback ∧ ¬x.Mapped ∧ ¬x.Padded := by
  have ⟨hall, hbest, hfirst⟩ := longestZeros_spec x.groups
  have hle := hall 0 (by simp [groups])
  have hlength := zeros_le (x.groups.drop (longestZeros x.groups).fst)
  have hdrop := zeros_drop x.groups (i := (longestZeros x.groups).fst)
  cases hrun : longestZeros x.groups
  case mk base n =>
    rw [hrun] at h hle hbest hfirst hlength hdrop
    dsimp only at h hle hbest hfirst hlength hdrop
    rw [List.drop_zero] at hle
    rw [List.length_drop] at hlength
    have hfew (hmany : 4 ≤ zeros x.groups) : False := by
      have height : x.groups.length = 8 := rfl
      cases base
      case zero      => omega
      case succ base =>
        have hlt := hfirst 0 (Nat.succ_pos _)
        rw [List.drop_zero] at hlt
        by_cases hbase : base + 1 ≤ zeros x.groups
        case pos =>
          have := hdrop hbase
          omega
        case neg => omega
    refine ⟨fun hx => hfew ?_, fun hx => hfew ?_, fun hx => hfew ?_, fun hx => ?_⟩
    · have := hx.zeros_eq
      omega
    · have := hx.zeros_eq
      omega
    · have := hx.zeros_eq
      omega
    · have ⟨hbase, htwo, _, _⟩ := hx
      rw [hrun] at hbase htwo
      dsimp only at hbase htwo
      omega

end V6

-- A text up to a colon.
theorem prefix_of_prefix_colon {p l r : Text} (hp : ':' ∉ p) (h : p <+: l ++ ':' :: r) : p <+: l := by
  induction l generalizing p
  case nil =>
    cases p
    case nil       => exact List.nil_prefix
    case cons c p  =>
      have hc := (List.cons_prefix_cons.mp h).left
      exact absurd (hc ▸ List.mem_cons_self ..) hp
  case cons d l ih =>
    cases p
    case nil       => exact List.nil_prefix
    case cons c p  =>
      have ⟨hc, hrest⟩ := List.cons_prefix_cons.mp h
      exact List.cons_prefix_cons.mpr ⟨hc, ih (fun hmem => hp <| List.mem_cons_of_mem _ hmem) hrest⟩

theorem prefix_join_iff {g : Nat} {gs : List Nat} (hg : g < 65536) (hgs : gs ≠ []) :
    ['f', 'f', 'f', 'f', ':'] <+: join (g :: gs) ↔ g = 0xffff := by
  rw [join_cons hgs]
  constructor
  · intro hpre
    have hfour : ['f', 'f', 'f', 'f'] <+: hexGroup g ++ ':' :: join gs :=
      (by decide : ['f', 'f', 'f', 'f'] <+: ['f', 'f', 'f', 'f', ':']).trans hpre
    exact (ffff_prefix_iff hg).mp <| prefix_of_prefix_colon (by decide) hfour
  · intro heq
    rw [heq]
    exact List.prefix_append_right_inj ['f', 'f', 'f', 'f'] |>.mpr <| List.cons_prefix_cons.mpr ⟨rfl, List.nil_prefix⟩

namespace V6

variable {x : V6} {n : Nat}

-- The groups that are left out are zero, and the next one is not.
theorem group_of_run (h : longestZeros x.groups = (0, n)) :
    (∀ i < n, x.groups[i]? = some 0) ∧ x.groups[n]? ≠ some 0 := by
  rw [← zeros_of_run h]
  exact ⟨fun _ => getElem?_zeros, getElem?_zeros_ne⟩

theorem not_padded_of_run (h : longestZeros x.groups = (0, n)) (hne : 5 ≤ n ∨ x.groups[n]? ≠ some 0xffff) :
    ¬x.Padded := by
  intro ⟨_, _, hlt, hffff⟩
  rw [h] at hlt hffff
  rcases hne with hge | hne
  · omega
  · exact hne hffff

theorem other_of_run (h : longestZeros x.groups = (0, n)) (h₈ : n ≠ 8) (h₇ : x.groups ≠ [0, 0, 0, 0, 0, 0, 0, 1])
    (h₅ : n = 5 → x.g₅.val ≠ 0xffff) (hne : 5 ≤ n ∨ x.groups[n]? ≠ some 0xffff) :
    ¬x.Unspecified ∧ ¬x.Loopback ∧ ¬x.Mapped ∧ ¬x.Padded := by
  have hzeros := zeros_of_run h
  refine ⟨fun hx => ?_, h₇, fun hx => ?_, not_padded_of_run h hne⟩
  · exact h₈ <| hzeros.symm.trans hx.zeros_eq
  · have hffff := congrArg (·[5]?) hx
    exact h₅ (hzeros.symm.trans hx.zeros_eq) <| by simpa [groups] using hffff

theorem Padded.other (h : x.Padded) :
    x.g₀ = 0 ∧ ¬x.Unspecified ∧ ¬x.Loopback ∧ ¬x.Mapped ∧ ¬x.Compatible := by
  have ⟨hbase, htwo, hlt, _⟩ := h
  have hrun : longestZeros x.groups = (0, (longestZeros x.groups).snd) := Prod.ext hbase rfl
  have hzeros := zeros_of_run hrun
  refine ⟨?_, fun hx => ?_, fun hx => ?_, fun hx => ?_, fun hx => ?_⟩
  · have := (group_of_run hrun).left 0 (by omega)
    simpa [groups] using this
  · rw [hx.zeros_eq] at hzeros
    omega
  · rw [hx.zeros_eq] at hzeros
    omega
  · rw [hx.zeros_eq] at hzeros
    omega
  · have := hx.le_zeros
    omega

-- Neither capital letters nor brackets are in a text.
theorem mem_hexText {c : Char} (hc : c ∈ x.hexText) : c ≠ '[' ∧ c.toLower = c := by
  rw [hexText] at hc
  dsimp only at hc
  have hgroups {gs : List Nat} (hgs : gs ⊆ x.groups) (hc : c ∈ join gs) : c ≠ '[' ∧ c.toLower = c :=
    (mem_join (fun g hg => groups_lt g <| hgs hg) hc).right
  split at hc
  case isTrue  => exact hgroups (fun _ h => h) hc
  case isFalse =>
    rw [List.append_assoc] at hc
    rcases List.mem_append.mp hc with hc | hc
    · exact hgroups (fun _ h => List.mem_of_mem_take h) hc
    · rcases List.mem_append.mp hc with hc | hc
      · simp only [List.mem_cons, List.not_mem_nil, or_false, or_self] at hc
        rw [hc]
        decide
      · exact hgroups (fun _ h => List.mem_of_mem_drop h) hc

theorem shape_of_short_run (h : longestZeros x.groups = (0, n)) (htwo : 2 ≤ n) (g : Nat) (gs : List Nat)
    (hdrop : x.groups.drop n = g :: (gs ++ [x.g₇.val])) (hlt : n < 5) : x.Shape := by
  have ⟨hzero, hnext⟩ := group_of_run h
  have hg : x.groups[n]? = some g := by
    have := congrArg (·[0]?) hdrop
    simpa using this
  have hmem {i : Nat} (hi : i ∈ g :: (gs ++ [x.g₇.val])) : i < 65536 :=
    groups_lt i <| List.mem_of_mem_drop <| hdrop ▸ hi
  have hne : gs ++ [x.g₇.val] ≠ [] := by simp
  have htext : x.text = [':', ':'] ++ join (g :: (gs ++ [x.g₇.val])) := by
    rw [← hdrop, ← hexText_of_run h htwo]
    refine text_of_ne (fun hrun => ?_) fun hrun => ?_
    · rw [h] at hrun
      injection hrun
      omega
    · rw [h] at hrun
      injection hrun
      omega
  have hffff := prefix_join_iff (hmem <| List.mem_cons_self ..) hne
  by_cases hg' : g = 0xffff
  case pos =>
    have hpadded : x.Padded := by
      rw [Padded, h]
      exact ⟨rfl, htwo, hlt, hg' ▸ hg⟩
    refine .padded hpadded gs (fun i hi => ?_) ?_
    · exact hmem <| List.mem_cons_of_mem _ <| List.mem_append_left _ hi
    · rw [htext, join_cons hne, hg']
      rfl
  case neg =>
    refine .short _ htext ?_ ?_ (fun hpre => hg' <| hffff.mp hpre) ?_
    · have := hzero 0 (by omega)
      simpa [groups] using this
    · have hlength : 1 < (join (g :: (gs ++ [x.g₇.val]))).length := by
        have := List.length_pos_iff.mpr (hexGroup_ne_nil (n := g))
        rw [join_cons hne, List.length_append, List.length_cons]
        omega
      constructor
      · intro hnil
        simp [hnil] at hlength
      · intro hone
        simp [hone] at hlength
    · refine other_of_run h (by omega) (fun hx => ?_) (by omega) <| .inr fun hx => ?_
      · have := zeros_of_run h
        rw [Loopback.zeros_eq hx] at this
        omega
      · rw [hg] at hx
        exact hg' <| Option.some.inj hx

theorem groups_of_run (h : longestZeros x.groups = (0, n)) (hn : n ≤ 8) :
    x.groups = List.replicate n 0 ++ x.groups.drop n := by
  have ⟨hzero, _⟩ := group_of_run h
  have htake : x.groups.take n = List.replicate n 0 := by
    refine List.ext_getElem? fun i => ?_
    rw [List.getElem?_take, List.getElem?_replicate]
    split
    case isTrue hi => exact hzero i hi
    case isFalse   => rfl
  rw [← htake, List.take_append_drop]

theorem shape_of_five (h : longestZeros x.groups = (0, 5)) (hfirst : x.g₀ = 0) : x.Shape := by
  have hgroups := groups_of_run h (by decide)
  by_cases hffff : x.g₅ = 0xffff
  case pos =>
    refine .mapped ?_ <| by rw [text, if_neg (by simp [h]), if_pos ⟨h, hffff⟩]
    have hval : x.g₅.val = 0xffff := congrArg Fin.val hffff
    rw [Mapped, hgroups]
    simp [groups, hval]
  case neg =>
    have hne : x.g₅.val ≠ 0xffff := fun heq => hffff <| Fin.ext heq
    have hcons : x.groups.drop 5 = x.g₅.val :: [x.g₆.val, x.g₇.val] := rfl
    have htext : x.text = [':', ':'] ++ join (x.g₅.val :: [x.g₆.val, x.g₇.val]) := by
      rw [text_of_ne (by simp [h]) (fun _ => hffff), hexText_of_run h (by decide), hcons]
    refine .short _ htext hfirst ?_ (fun hpre => ?_) ?_
    · have hlength : 1 < (join (x.g₅.val :: [x.g₆.val, x.g₇.val])).length := by
        have := List.length_pos_iff.mpr (hexGroup_ne_nil (n := x.g₅))
        rw [join_cons (by simp), List.length_append, List.length_cons]
        omega
      constructor
      · intro hnil
        simp [hnil] at hlength
      · intro hone
        simp [hone] at hlength
    · exact hne <| (prefix_join_iff x.g₅.isLt (by simp)).mp hpre
    · refine other_of_run h (by decide) (fun hx => ?_) (fun _ => hne) <| .inl (Nat.le_refl 5)
      have hzeros := zeros_of_run h
      rw [Loopback.zeros_eq hx] at hzeros
      cases hzeros

theorem shape_of_six (h : longestZeros x.groups = (0, 6)) (hfirst : x.g₀ = 0) : x.Shape := by
  refine .short x.low.text (by rw [text, if_pos h]) hfirst ?_ (fun hpre => ?_) ?_
  · have hdot := dot_mem_text (x := x.low)
    constructor
    · intro hnil
      simp [hnil] at hdot
    · intro hone
      simp [hone] at hdot
  · have hmem : 'f' ∈ x.low.text := hpre.subset (List.mem_cons_self ..)
    have := mem_text _ hmem
    revert this
    decide
  · refine other_of_run h (by decide) (fun hx => ?_) (by omega) <| .inl (by decide)
    have hzeros := zeros_of_run h
    rw [Loopback.zeros_eq hx] at hzeros
    cases hzeros

theorem shape_of_seven (h : longestZeros x.groups = (0, 7)) (hfirst : x.g₀ = 0) : x.Shape := by
  have htext : x.text = [':', ':'] ++ hexGroup x.g₇ := by
    rw [text_of_ne (by simp [h]) (by simp [h]), hexText_of_run h (by decide)]
    simp [groups]
  by_cases hone : x.g₇.val = 1
  case pos =>
    refine .loopback ?_ ?_
    · rw [Loopback, groups_of_run h (by decide)]
      simp [groups, hone]
    · rw [htext, hone]
      rfl
  case neg =>
    refine .short _ htext hfirst ⟨hexGroup_ne_nil, fun heq => ?_⟩ (fun hpre => ?_) ?_
    · exact hone <| (hexGroup_eq_one_iff x.g₇.isLt).mp heq
    · exact (mem_hexGroup x.g₇.isLt <| hpre.subset (by simp : ':' ∈ _)).left rfl
    · refine other_of_run h (by decide) (fun hx => ?_) (by omega) <| .inl (by decide)
      have := congrArg (·[7]?) hx
      simp [groups, hone] at this

-- Whatever the groups of an address, its text is one of these.
theorem text_shape (x : V6) : x.Shape := by
  by_cases hrun : (longestZeros x.groups).fst ≠ 0 ∨ (longestZeros x.groups).snd < 2
  case pos =>
    have ⟨rest, hrest⟩ := hexText_of_not_run hrun
    refine .full rest ?_ <| not_of_not_run hrun
    rw [text_of_ne (fun h => ?_) (fun h => ?_), hrest]
    · rw [h] at hrun
      simp at hrun
    · rw [h] at hrun
      simp at hrun
  case neg =>
    push Not at hrun
    have ⟨n, h, htwo⟩ : ∃ n, longestZeros x.groups = (0, n) ∧ 2 ≤ n :=
      ⟨_, Prod.ext hrun.left rfl, hrun.right⟩
    have ⟨hzero, hnext⟩ := group_of_run h
    have height : n ≤ 8 := zeros_of_run h ▸ zeros_le _
    by_cases hlt : n < 5
    case pos =>
      interval_cases n
      · exact shape_of_short_run h htwo x.g₂ [x.g₃, x.g₄, x.g₅, x.g₆] rfl hlt
      · exact shape_of_short_run h htwo x.g₃ [x.g₄, x.g₅, x.g₆] rfl hlt
      · exact shape_of_short_run h htwo x.g₄ [x.g₅, x.g₆] rfl hlt
    case neg =>
      have hfirst : x.g₀ = 0 := by
        have := hzero 0 (by omega)
        simpa [groups] using this
      interval_cases n
      · exact shape_of_five h hfirst
      · exact shape_of_six h hfirst
      · exact shape_of_seven h hfirst
      · have height : x.groups = List.replicate 8 0 := by
          refine List.ext_getElem? fun i => ?_
          by_cases hi : i < 8
          case pos => rw [hzero i hi, List.getElem?_replicate, if_pos hi]
          case neg => rw [List.getElem?_replicate, if_neg hi, List.getElem?_eq_none (Nat.not_lt.mp hi)]
        refine .unspecified height ?_
        rw [text_of_ne (by simp [h]) (by simp [h]), hexText_of_run h htwo]
        rfl

end V6

end Internet
