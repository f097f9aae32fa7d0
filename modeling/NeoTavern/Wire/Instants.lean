import NeoTavern.Wire.Time

namespace Wire

section Digits

variable {w k m n : Nat}

theorem pad_add : pad (w + k) n = pad w (n / 10 ^ k) ++ pad k n := by
  induction k generalizing n
  case zero       => simp [pad]
  case succ k ih  =>
    rw [← Nat.add_assoc, pad, ih, pad, Nat.div_div_eq_div_mul, List.append_assoc, Nat.pow_succ,
      Nat.mul_comm]

theorem pad_inj (hm : m < 10 ^ w) (hn : n < 10 ^ w) (h : pad w m = pad w n) : m = n := by
  rcases Nat.lt_trichotomy m n with hlt | heq | hlt
  · exact absurd (h ▸ pad_lt_pad hn hlt) <| List.lt_irrefl _
  · exact heq
  · exact absurd (h ▸ pad_lt_pad hm hlt) <| List.lt_irrefl _

theorem digit_eq_zero_iff : digit n = '0' ↔ n % 10 = 0 := by
  constructor
  case mp  =>
    intro h
    have hn := digit_toNat n
    rw [h] at hn
    change 48 = _ at hn
    omega
  case mpr =>
    intro h
    rw [digit, h]
    rfl

-- The last digits of a number are zeros exactly if it is a multiple of the power.
theorem pad_zeros_iff : (∀ c ∈ pad k n, c = '0') ↔ n % 10 ^ k = 0 := by
  induction k generalizing n
  case zero      => simp [pad, Nat.mod_one]
  case succ k ih =>
    have hmod : n % 10 ^ (k + 1) = 0 ↔ n / 10 % 10 ^ k = 0 ∧ n % 10 = 0 := by
      rw [Nat.pow_succ, Nat.mul_comm, Nat.mod_mul]
      omega
    rw [hmod, ← ih, ← digit_eq_zero_iff]
    simp [pad, or_imp, forall_and]

-- Where two texts of one length differ first.
theorem exists_first_difference {xs ys : List Char} (hl : xs.length = ys.length) (h : xs < ys) :
    ∃ p a b xs' ys', xs = p ++ a :: xs' ∧ ys = p ++ b :: ys' ∧ a < b := by
  induction xs generalizing ys
  case nil =>
    cases ys
    case nil  => simp at h
    case cons => simp at hl
  case cons x xs ih =>
    cases ys
    case nil       => simp at hl
    case cons y ys =>
      rcases List.cons_lt_cons_iff.mp h with hxy | ⟨rfl, hrest⟩
      · exact ⟨[], x, y, xs, ys, rfl, rfl, hxy⟩
      · have ⟨p, a, b, xs', ys', hx, hy, hab⟩ := ih (by simpa using hl) hrest
        exact ⟨x :: p, a, b, xs', ys', by rw [hx]; rfl, by rw [hy]; rfl, hab⟩

theorem append_lt_append_left_iff {xs ys zs : List Char} : xs ++ ys < xs ++ zs ↔ ys < zs := by
  induction xs
  case nil          => rfl
  case cons x xs ih => simp [ih]

end Digits

section Fraction

-- A text without the zeros at its end.
def withoutZeros (cs : List Char) : List Char :=
  cs.rdropWhile (· == '0')

theorem withoutZeros_append (p cs : List Char) : withoutZeros (p ++ cs) =
    if withoutZeros cs = [] then withoutZeros p else p ++ withoutZeros cs := by
  simp only [withoutZeros, List.rdropWhile, List.reverse_append, List.dropWhile_append,
    List.reverse_eq_nil_iff, List.isEmpty_iff]
  split
  case isTrue  => rfl
  case isFalse => simp

theorem withoutZeros_eq_nil_iff {cs : List Char} : withoutZeros cs = [] ↔ ∀ c ∈ cs, c = '0' := by
  simp [withoutZeros]

theorem withoutZeros_cons {a : Char} {cs : List Char} (h : withoutZeros (a :: cs) ≠ []) :
    ∃ ds, withoutZeros (a :: cs) = a :: ds := by
  have hprefix : withoutZeros (a :: cs) <+: a :: cs := List.rdropWhile_prefix ..
  cases hz : withoutZeros (a :: cs)
  case nil      => exact absurd hz h
  case cons d ds =>
    rw [hz] at hprefix
    exact ⟨ds, congrArg (· :: ds) (List.cons_prefix_cons.mp hprefix).left⟩

def fractionText (n : Nat) : List Char :=
  if n = 0 then ['Z'] else '.' :: withoutZeros (pad 9 n) ++ ['Z']

theorem fractionText_eq (t : OffsetDateTime) : t.fraction ++ ['Z'] = fractionText t.nanosecond := by
  rw [OffsetDateTime.fraction, fractionText]
  split
  case isTrue  => rfl
  case isFalse => rfl

section Difference

variable {p xs ys : List Char} {a b : Char} {m n : Nat}

theorem fractionText_of_digits (hn : pad 9 n = p ++ b :: ys) (hb : withoutZeros (b :: ys) ≠ []) :
    ∃ zs, fractionText n = '.' :: (p ++ b :: zs) := by
  have ⟨zs, hz⟩ := withoutZeros_cons hb
  have hne : n ≠ 0 := by
    rintro rfl
    have hzeros : ∀ c ∈ pad 9 0, c = '0' := pad_zeros_iff.mpr rfl
    rw [hn] at hzeros
    exact hb <| withoutZeros_eq_nil_iff.mpr fun c hc => hzeros c <| List.mem_append_right _ hc
  refine ⟨zs ++ ['Z'], ?_⟩
  rw [fractionText, if_neg hne, hn, withoutZeros_append, if_neg hb, hz]
  simp

-- What has only zeros after a place is written up to there, and then a `Z` stands where a digit may.
theorem lt_fractionText_of_zeros {cs : List Char} (hm : pad 9 m = p ++ cs) (hcs : withoutZeros cs = [])
    (hb : b < 'Z') (hp : ∀ c ∈ p, c < 'Z') : '.' :: (p ++ b :: ys) < fractionText m := by
  rw [fractionText]
  split
  case isTrue  => exact List.cons_lt_cons_iff.mpr <| .inl (by decide)
  case isFalse =>
    rw [hm, withoutZeros_append, if_pos hcs, List.cons_append]
    refine List.cons_lt_cons_iff.mpr <| .inr ⟨rfl, ?_⟩
    obtain ⟨q, hq⟩ : withoutZeros p <+: p := List.rdropWhile_prefix ..
    rw [← hq] at hp
    generalize withoutZeros p = r at hq hp
    subst hq
    rw [List.append_assoc]
    apply Lists.append_lt_append_left
    cases q
    case nil      => exact List.cons_lt_cons_iff.mpr <| .inl hb
    case cons c q => exact List.cons_lt_cons_iff.mpr <| .inl <| hp c <| by simp

end Difference

theorem lt_Z_of_mem_pad {c : Char} {w n : Nat} (h : c ∈ pad w n) : c < 'Z' := by
  have hc : c.toNat ≤ 57 := (pad_ascii h).right
  exact (show c.toNat < 90 by omega)

-- The digits before and from one place on.
theorem pad_split {p cs : List Char} {c : Char} {w k n : Nat} (h : pad (w + (k + 1)) n = p ++ c :: cs)
    (hp : p.length = w) :
    pad w (n / 10 ^ (k + 1)) = p ∧ pad (k + 1) n = c :: cs ∧ digit (n / 10 ^ k) = c := by
  rw [pad_add] at h
  have ⟨hpre, hcs⟩ := List.append_inj h (by simp [hp])
  have hone : pad (k + 1) n = [digit (n / 10 ^ k)] ++ pad k n := by
    rw [Nat.add_comm, pad_add]
    rfl
  exact ⟨hpre, hcs, (List.cons.inj <| hone.symm.trans hcs).left⟩

-- Numbers that first differ at a place are cut off from one another exactly if only zeros follow from there.
theorem cut_iff {k w m n : Nat} (hw : k + 1 ≤ w) (hpre : m / 10 ^ (k + 1) = n / 10 ^ (k + 1))
    (hne : m / 10 ^ k ≠ n / 10 ^ k) :
    (∃ l ≤ w, m = n / 10 ^ l * 10 ^ l) ↔ m % 10 ^ (k + 1) = 0 := by
  constructor
  case mp  =>
    intro ⟨l, _, hl⟩
    rcases Nat.lt_or_ge k l with hkl | hkl
    · rw [hl]
      exact Nat.mod_eq_zero_of_dvd <| Nat.dvd_mul_left_of_dvd (Nat.pow_dvd_pow 10 hkl) _
    · exfalso
      apply hne
      have hsame : m / 10 ^ l = n / 10 ^ l := by
        conv_lhs => rw [hl]
        exact Nat.mul_div_cancel _ <| Nat.pow_pos (by decide)
      obtain ⟨d, rfl⟩ := Nat.exists_eq_add_of_le hkl
      rw [Nat.pow_add, ← Nat.div_div_eq_div_mul, ← Nat.div_div_eq_div_mul, hsame]
  case mpr =>
    intro hmod
    refine ⟨k + 1, hw, ?_⟩
    have := Nat.div_add_mod m (10 ^ (k + 1))
    rw [← hpre, Nat.mul_comm]
    omega

-- Fractions are ordered as their texts are, unless the one is the other cut off somewhere.
theorem fractionText_lt_iff {m n : Nat} (hn : n < 10 ^ 9) (h : m < n) :
    fractionText m < fractionText n ↔ ¬∃ k ≤ 9, m = n / 10 ^ k * 10 ^ k := by
  have hm : m < 10 ^ 9 := Nat.lt_trans h hn
  have ⟨p, a, b, xs, ys, hx, hy, hab⟩ := exists_first_difference (by simp) (pad_lt_pad hn h)
  have hlenx := congrArg List.length hx
  have hleny := congrArg List.length hy
  rw [pad_length, List.length_append, List.length_cons] at hlenx hleny
  obtain ⟨k, hk⟩ : ∃ k, xs.length = k := ⟨_, rfl⟩
  have hw : p.length + (k + 1) = 9 := by omega
  have ⟨hpm, hxs, ha⟩ := pad_split (hw ▸ hx) rfl
  have ⟨hpn, hys, hb⟩ := pad_split (hw ▸ hy) rfl
  have hpre : m / 10 ^ (k + 1) = n / 10 ^ (k + 1) := by
    have hlt {l : Nat} (hl : l < 10 ^ 9) : l / 10 ^ (k + 1) < 10 ^ p.length := by
      rw [← hw, Nat.pow_add] at hl
      exact Nat.div_lt_of_lt_mul <| Nat.mul_comm .. ▸ hl
    exact pad_inj (hlt hm) (hlt hn) <| hpm.trans hpn.symm
  have hne : m / 10 ^ k ≠ n / 10 ^ k := by
    intro heq
    rw [← ha, ← hb, heq] at hab
    exact List.lt_irrefl [digit (n / 10 ^ k)] <| List.cons_lt_cons_iff.mpr <| .inl hab
  have hbzero : withoutZeros (b :: ys) ≠ [] := by
    intro hnil
    have hzero := withoutZeros_eq_nil_iff.mp hnil b List.mem_cons_self
    have hle : 48 ≤ a.toNat := (ha ▸ digit_ascii _).left
    have hlt : a.toNat < b.toNat := hab
    rw [hzero] at hlt
    change a.toNat < 48 at hlt
    omega
  have ⟨zs, htext⟩ := fractionText_of_digits hy hbzero
  rw [cut_iff (by omega) hpre hne, ← pad_zeros_iff, hxs, ← withoutZeros_eq_nil_iff]
  by_cases hcs : withoutZeros (a :: xs) = []
  case pos =>
    refine iff_of_false (fun hlt => ?_) fun hno => hno hcs
    have hlt' : fractionText n < fractionText m := by
      rw [htext]
      refine lt_fractionText_of_zeros hx hcs (lt_Z_of_mem_pad (hys ▸ List.mem_cons_self)) fun c hc => ?_
      exact lt_Z_of_mem_pad (hpm ▸ hc)
    exact List.lt_irrefl _ <| List.lt_trans hlt hlt'
  case neg =>
    refine iff_of_true ?_ hcs
    have ⟨zs', htext'⟩ := fractionText_of_digits hx hcs
    rw [htext, htext']
    refine List.cons_lt_cons_iff.mpr <| .inr ⟨rfl, Lists.append_lt_append_left ?_⟩
    exact List.cons_lt_cons_iff.mpr <| .inl hab

end Fraction

namespace OffsetDateTime

def daysInYear (y : Nat) : Nat :=
  if isLeapYear y then 366 else 365

def daysBeforeYear : Nat → Nat
  | 0     => 0
  | y + 1 => daysBeforeYear y + daysInYear y

-- The first month is 1.
def daysBeforeMonth (y : Nat) : Nat → Nat
  | 0     => 0
  | m + 1 => daysBeforeMonth y m + if m = 0 then 0 else daysInMonth y m

-- A date that the calendar has.
structure Valid (t : OffsetDateTime) : Prop where
  month : 1 ≤ t.month.val
  first : 1 ≤ t.day.val
  last  : t.day.val ≤ daysInMonth t.year t.month

def days (t : OffsetDateTime) : Nat :=
  daysBeforeYear t.year + daysBeforeMonth t.year t.month + t.day

def seconds (t : OffsetDateTime) : Nat :=
  ((t.days * 24 + t.hour) * 60 + t.minute) * 60 + t.second

-- Nanoseconds since the beginning of the calendar.
def instant (t : OffsetDateTime) : Nat :=
  t.seconds * 10 ^ 9 + t.nanosecond

section Calendar

variable {y y' m m' : Nat} {t t₁ t₂ e : OffsetDateTime}

theorem daysBeforeYear_mono (h : y < y') : daysBeforeYear y + daysInYear y ≤ daysBeforeYear y' := by
  induction h
  case refl      => exact Nat.le_refl _
  case step _ ih => exact Nat.le_trans ih <| Nat.le_add_right ..

theorem daysBeforeMonth_mono (h : m < m') (hm : 1 ≤ m) :
    daysBeforeMonth y m + daysInMonth y m ≤ daysBeforeMonth y m' := by
  induction h
  case refl      =>
    rw [daysBeforeMonth, if_neg (by omega)]
  case step _ ih => exact Nat.le_trans ih <| Nat.le_add_right ..

theorem daysInMonth_bounds : 1 ≤ daysInMonth y m ∧ daysInMonth y m ≤ 31 := by
  unfold daysInMonth
  split
  case h_1 => cases isLeapYear y <;> decide
  all_goals exact ⟨by omega, by omega⟩

theorem daysBeforeMonth_last : daysBeforeMonth y 12 + daysInMonth y 12 = daysInYear y := by
  cases hy : isLeapYear y
  case false => simp [daysBeforeMonth, daysInMonth, daysInYear, hy]
  case true  => simp [daysBeforeMonth, daysInMonth, daysInYear, hy]

-- No day is past the end of its year.
theorem Valid.dayOfYear_le (h : t.Valid) : daysBeforeMonth t.year t.month + t.day ≤ daysInYear t.year := by
  have hlast := h.last
  have hend : daysBeforeMonth t.year t.month + daysInMonth t.year t.month ≤ daysInYear t.year := by
    rw [← daysBeforeMonth_last]
    rcases Nat.lt_or_ge t.month.val 12 with hm | hm
    · exact Nat.le_trans (daysBeforeMonth_mono hm h.month) <| Nat.le_add_right ..
    · have heq : t.month.val = 12 := by omega
      rw [heq]
  omega

theorem days_lt (h₁ : t₁.Valid) (h₂ : t₂.Valid) (h : t₁.year.val < t₂.year.val ∨ t₁.year.val = t₂.year.val ∧
    (t₁.month.val < t₂.month.val ∨ t₁.month.val = t₂.month.val ∧ t₁.day.val < t₂.day.val)) :
    t₁.days < t₂.days := by
  have hfirst := h₂.first
  rw [days, days]
  rcases h with hy | ⟨hy, hm | ⟨hm, hd⟩⟩
  · have hyear := daysBeforeYear_mono hy
    have hday  := h₁.dayOfYear_le
    omega
  · have hmonth : daysBeforeMonth t₁.year t₁.month + daysInMonth t₁.year t₁.month ≤
      daysBeforeMonth t₁.year t₂.month := daysBeforeMonth_mono hm h₁.month
    have hday := h₁.last
    rw [← hy]
    omega
  · rw [← hy, ← hm]
    omega

-- The order of the components is that of time.
theorem seconds_lt (h₁ : t₁.Valid) (h₂ : t₂.Valid) (h : t₁.wholeSecond < t₂.wholeSecond) :
    t₁.seconds < t₂.seconds := by
  simp only [wholeSecond, List.cons_lt_cons_iff, List.lt_irrefl, and_false, or_false] at h
  by_cases hdays : t₁.days < t₂.days
  case pos =>
    rw [seconds, seconds]
    omega
  case neg =>
    have hdate := fun h' => hdays <| days_lt h₁ h₂ h'
    have heq : t₁.days = t₂.days ∧ (t₁.hour.val < t₂.hour.val ∨ t₁.hour.val = t₂.hour.val ∧
        (t₁.minute.val < t₂.minute.val ∨ t₁.minute.val = t₂.minute.val ∧ t₁.second.val < t₂.second.val)) := by
      rcases h with hy | ⟨hy, hm | ⟨hm, hd | ⟨hd, h⟩⟩⟩
      · exact absurd (.inl hy) hdate
      · exact absurd (.inr ⟨hy, .inl hm⟩) hdate
      · exact absurd (.inr ⟨hy, .inr ⟨hm, hd⟩⟩) hdate
      · exact ⟨by rw [days, days, hy, hm, hd], h⟩
    rw [seconds, seconds]
    omega

theorem seconds_eq (h : t₁.wholeSecond = t₂.wholeSecond) : t₁.seconds = t₂.seconds := by
  simp only [wholeSecond, List.cons.injEq, and_true] at h
  obtain ⟨hy, hm, hd, hh, hmin, hs⟩ := h
  rw [seconds, seconds, days, days, hy, hm, hd, hh, hmin, hs]

theorem instant_lt_cases (h₁ : t₁.Valid) (h₂ : t₂.Valid) (h : t₁.instant < t₂.instant) :
    t₁.wholeSecond < t₂.wholeSecond ∨
    t₁.wholeSecond = t₂.wholeSecond ∧ t₁.nanosecond.val < t₂.nanosecond.val := by
  have hn₁ := t₁.nanosecond.isLt
  have hn₂ := t₂.nanosecond.isLt
  rw [instant, instant] at h
  by_cases hlt : t₁.wholeSecond < t₂.wholeSecond
  case pos => exact .inl hlt
  case neg =>
    by_cases hgt : t₂.wholeSecond < t₁.wholeSecond
    case pos =>
      have := seconds_lt h₂ h₁ hgt
      omega
    case neg =>
      have heq : t₁.wholeSecond = t₂.wholeSecond := List.le_antisymm (List.not_lt.mp hgt) (List.not_lt.mp hlt)
      refine .inr ⟨heq, ?_⟩
      have hsame := seconds_eq heq
      omega

end Calendar

section Lease

variable {t e : OffsetDateTime} {n : Fin 60}

theorem nextDay_spec (h : t.Valid) (he : t.nextDay = some e) :
    e.Valid ∧ e.days = t.days + 1 ∧ e.hour = t.hour ∧ e.minute = t.minute ∧ e.second = t.second ∧
      e.nanosecond = t.nanosecond := by
  have hlast  := h.last
  have hmonth := h.month
  rw [nextDay] at he
  split at he
  case isTrue hd =>
    cases he
    have hbound : daysInMonth t.year t.month ≤ 31 := daysInMonth_bounds.right
    have hday : (Fin.ofNat 32 (t.day + 1)).val = t.day + 1 := Nat.mod_eq_of_lt (by omega)
    refine ⟨⟨hmonth, ?_, ?_⟩, ?_, rfl, rfl, rfl, rfl⟩
    · simp only [hday]
      omega
    · simp only [hday]
      exact hd
    · simp only [days, hday]
      omega
  case isFalse hd =>
    have hend : t.day.val = daysInMonth t.year t.month := by omega
    split at he
    case isTrue hm =>
      cases he
      have hnext : (Fin.ofNat 13 (t.month + 1)).val = t.month + 1 := Nat.mod_eq_of_lt (by omega)
      refine ⟨⟨?_, Nat.le_refl _, daysInMonth_bounds.left⟩, ?_, rfl, rfl, rfl, rfl⟩
      · simp only [hnext]
        omega
      · have hone : (1 : Fin 32).val = 1 := rfl
        simp only [days, hnext, daysBeforeMonth, if_neg (show ¬t.month.val = 0 by omega), hone]
        omega
    case isFalse hm =>
      split at he
      case isFalse      => cases he
      case isTrue hyear =>
        cases he
        have hlastMonth : t.month.val = 12 := by omega
        refine ⟨⟨Nat.le_refl _, Nat.le_refl _, daysInMonth_bounds.left⟩, ?_, rfl, rfl, rfl, rfl⟩
        have hyears : daysBeforeYear (t.year.val + 1) = daysBeforeYear t.year + daysInYear t.year := rfl
        have hone   : daysBeforeMonth (t.year.val + 1) (1 : Fin 13).val + (1 : Fin 32).val = 1 := rfl
        have hyend  : daysBeforeMonth t.year 12 + daysInMonth t.year 12 = daysInYear t.year :=
          daysBeforeMonth_last
        simp only [days]
        rw [hlastMonth] at hend ⊢
        omega

theorem addSeconds_spec (h : t.Valid) (he : t.addSeconds n = some e) :
    e.Valid ∧ e.instant = t.instant + n * 10 ^ 9 := by
  have hs := t.second.isLt
  have hn := n.isLt
  rw [addSeconds] at he
  split at he
  case isTrue =>
    cases he
    refine ⟨⟨h.month, h.first, h.last⟩, ?_⟩
    simp only [instant, seconds, days]
    omega
  case isFalse hover =>
    have hrest : (Fin.ofNat 60 (t.second + n - 60)).val = t.second + n - 60 := Nat.mod_eq_of_lt (by omega)
    simp only at he
    split at he
    case isTrue =>
      cases he
      refine ⟨⟨h.month, h.first, h.last⟩, ?_⟩
      simp only [instant, seconds, days, hrest]
      omega
    case isFalse hminute =>
      split at he
      case isTrue =>
        cases he
        refine ⟨⟨h.month, h.first, h.last⟩, ?_⟩
        have hzero : (0 : Fin 60).val = 0 := rfl
        simp only [instant, seconds, days, hrest, hzero]
        omega
      case isFalse hhour =>
        have hm := t.minute.isLt
        have hh := t.hour.isLt
        have hvalid : ({ t with second := Fin.ofNat 60 (t.second + n - 60), minute := 0, hour := 0 } :
          OffsetDateTime).Valid := ⟨h.month, h.first, h.last⟩
        have ⟨hv, hdays, hnext⟩ := nextDay_spec hvalid he
        have hnext : e.hour = 0 ∧ e.minute = 0 ∧ e.second = Fin.ofNat 60 (t.second + n - 60) ∧
          e.nanosecond = t.nanosecond := hnext
        have hdays : e.days = t.days + 1 := hdays
        have hzero  : (0 : Fin 60).val = 0 := rfl
        have hzero' : (0 : Fin 24).val = 0 := rfl
        refine ⟨hv, ?_⟩
        rw [instant, instant, seconds, seconds, hdays, hnext.left, hnext.right.left, hnext.right.right.left,
          hnext.right.right.right, hrest, hzero, hzero']
        omega

-- The one instant is the other one without the last decimals of its second, or without all of them.
def CutOff (t₁ t₂ : OffsetDateTime) : Prop :=
  ∃ k ≤ 9, t₁.instant = t₂.instant / 10 ^ k * 10 ^ k

end Lease

section Texts

variable {t₁ t₂ e₁ e₂ : OffsetDateTime}

theorem cutOff_iff (h : t₁.seconds = t₂.seconds) : CutOff t₁ t₂ ↔
    ∃ k ≤ 9, t₁.nanosecond.val = t₂.nanosecond.val / 10 ^ k * 10 ^ k := by
  have hcut (k : Nat) (hk : k ≤ 9) : t₂.instant / 10 ^ k * 10 ^ k =
      t₂.seconds * 10 ^ 9 + t₂.nanosecond / 10 ^ k * 10 ^ k := by
    obtain ⟨d, hd⟩ := Nat.exists_eq_add_of_le hk
    rw [instant, hd, Nat.pow_add, Nat.mul_comm (10 ^ k), ← Nat.mul_assoc, Nat.add_comm,
      Nat.add_mul_div_right _ _ (Nat.pow_pos (by decide)), Nat.add_mul, Nat.add_comm]
  constructor
  case mp  =>
    intro ⟨k, hk, heq⟩
    rw [hcut k hk, instant, h] at heq
    exact ⟨k, hk, Nat.add_left_cancel heq⟩
  case mpr =>
    intro ⟨k, hk, heq⟩
    exact ⟨k, hk, by rw [hcut k hk, instant, h, heq]⟩

theorem CutOff.seconds (h : CutOff t₁ t₂) : t₁.seconds = t₂.seconds := by
  have ⟨k, hk, heq⟩ := h
  have hinstant (t : OffsetDateTime) : t.instant / 10 ^ 9 = t.seconds := by
    have hn := t.nanosecond.isLt
    rw [instant]
    omega
  obtain ⟨d, hd⟩ := Nat.exists_eq_add_of_le hk
  calc t₁.seconds
    _ = t₂.instant / 10 ^ k * 10 ^ k / 10 ^ 9 := by rw [← hinstant, heq]
    _ = t₂.instant / 10 ^ k / 10 ^ d := by
      rw [hd, Nat.pow_add, ← Nat.div_div_eq_div_mul, Nat.mul_div_cancel _ (Nat.pow_pos (by decide))]
    _ = t₂.seconds := by rw [Nat.div_div_eq_div_mul, ← Nat.pow_add, ← hd, hinstant]

-- A whole number of seconds changes nothing.
theorem cutOff_later {n : Nat} (h₁ : e₁.instant = t₁.instant + n * 10 ^ 9)
    (h₂ : e₂.instant = t₂.instant + n * 10 ^ 9) : CutOff e₁ e₂ ↔ CutOff t₁ t₂ := by
  have hcut (k : Nat) (hk : k ≤ 9) : e₂.instant / 10 ^ k * 10 ^ k =
      t₂.instant / 10 ^ k * 10 ^ k + n * 10 ^ 9 := by
    obtain ⟨d, hd⟩ := Nat.exists_eq_add_of_le hk
    have hpow : n * 10 ^ 9 = n * 10 ^ d * 10 ^ k := by
      rw [hd, Nat.pow_add, Nat.mul_comm (10 ^ k), ← Nat.mul_assoc]
    rw [h₂, hpow, Nat.add_mul_div_right _ _ (Nat.pow_pos (by decide)), Nat.add_mul]
  constructor
  case mp  =>
    intro ⟨k, hk, heq⟩
    rw [hcut k hk, h₁] at heq
    exact ⟨k, hk, Nat.add_right_cancel heq⟩
  case mpr =>
    intro ⟨k, hk, heq⟩
    exact ⟨k, hk, by rw [hcut k hk, h₁, heq]⟩

theorem format_lt_iff (h₁ : t₁.Valid) (h₂ : t₂.Valid) (h : t₁.instant < t₂.instant) :
    t₁.format < t₂.format ↔ ¬CutOff t₁ t₂ := by
  rcases instant_lt_cases h₁ h₂ h with hlt | ⟨heq, hn⟩
  · refine iff_of_true (format_lt_format hlt) fun hcut => ?_
    exact Nat.lt_irrefl _ <| hcut.seconds ▸ seconds_lt h₁ h₂ hlt
  · have hdate : t₁.dateAndTime = t₂.dateAndTime := by
      simp only [wholeSecond, List.cons.injEq, and_true] at heq
      obtain ⟨hy, hm, hd, hh, hmin, hs⟩ := heq
      rw [dateAndTime, dateAndTime, hy, hm, hd, hh, hmin, hs]
    rw [cutOff_iff <| seconds_eq heq, ← fractionText_lt_iff t₂.nanosecond.isLt hn, String.lt_iff, format,
      format, String.toList_ofList, String.toList_ofList, List.append_assoc, List.append_assoc, hdate,
      append_lt_append_left_iff, fractionText_eq, fractionText_eq]

end Texts

end OffsetDateTime

end Wire
