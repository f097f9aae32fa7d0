import Mathlib
import NeoTavern.Lib.Lists
import NeoTavern.Wire.Format

namespace Wire

-- The fields of an RFC 9562 version 7 identifier that are not fixed by the format.
structure UuidV7 where
  millis : BitVec 48
  randA  : BitVec 12
  randB  : BitVec 62
  deriving DecidableEq

namespace UuidV7

def asU128 (u : UuidV7) : BitVec 128 :=
  (u.millis ++ 7#4 ++ u.randA ++ 2#2 ++ u.randB).cast rfl

end UuidV7

def hexDigit (b : BitVec 4) : Char :=
  Nat.digitChar b.toNat

-- The `i`-th hexadecimal digit of `u`, counted from the most significant.
def nibble (u : BitVec 128) (i : Nat) : BitVec 4 :=
  u.extractLsb' (4 * (31 - i)) 4

def hexDigits (u : BitVec 128) (i len : Nat) : List Char :=
  (List.range' i len).map (hexDigit <| nibble u ·)

-- `Uuid::to_string`: lowercase and hyphenated.
def hyphenated (u : BitVec 128) : String :=
  .ofList <| hexDigits u 0 8 ++ ['-'] ++ hexDigits u 8 4 ++ ['-'] ++ hexDigits u 12 4 ++ ['-'] ++
    hexDigits u 16 4 ++ ['-'] ++ hexDigits u 20 12

def versionNibbleMask : BitVec 128 := 0xF0000000000000000000#128
def v4Nibble          : BitVec 128 := 0x40000000000000000000#128

def withV4Nibble (u : BitVec 128) : BitVec 128 :=
  (u &&& ~~~versionNibbleMask) ||| v4Nibble

-- A time-ordered identifier whose version nibble is rewritten so that it has the wire format.
def newId (raw : UuidV7) : String :=
  hyphenated <| withV4Nibble raw.asU128

theorem hexDigit_isHexDigit (b : BitVec 4) : isHexDigit (hexDigit b) := by
  decide +revert

theorem matchPrefix_hexDigits :
    matchPrefix (List.replicate len isHexDigit) (hexDigits u i len) = some [] := by
  refine matchPrefix_replicate (by simp [hexDigits]) fun c hc => ?_
  have ⟨_, _, h⟩ := List.mem_map.mp hc
  exact h ▸ hexDigit_isHexDigit _

theorem nibble_version : nibble (withV4Nibble u) 12 = 4#4 := by
  have h (b : BitVec 4) : (b &&& ~~~0xF#4) ||| 4#4 = 4#4 := by decide +revert
  simp only [nibble, withV4Nibble, BitVec.extractLsb'_or, BitVec.extractLsb'_and]
  exact h _

theorem nibble_variant (raw : UuidV7) :
    (nibble (withV4Nibble raw.asU128) 16).extractLsb' 2 2 = 2#2 := by
  ext i hi
  simp only [nibble, withV4Nibble, UuidV7.asU128, versionNibbleMask, v4Nibble,
    BitVec.getElem_extractLsb', BitVec.getLsbD_extractLsb', BitVec.getLsbD_or, BitVec.getLsbD_and,
    BitVec.getLsbD_cast, BitVec.getLsbD_append]
  interval_cases i <;> simp

theorem newId_isUuid (raw : UuidV7) : isUuid (newId raw) := by
  have hd (b : BitVec 4) (h : b.extractLsb' 2 2 = 2#2) :
      "89abAB".toList.contains (hexDigit b) := by decide +revert
  have hv := hd _ <| nibble_variant raw
  simp only [isUuid, newId, hyphenated, String.toList_ofList, beq_iff_eq]
  have h (i : Nat) : hexDigits (withV4Nibble raw.asU128) i 4 =
      [hexDigit <| nibble (withV4Nibble raw.asU128) i] ++
      hexDigits (withV4Nibble raw.asU128) (i + 1) 3 := rfl
  rw [h 12, h 16, nibble_version]
  simp only [uuidPattern, ← List.append_assoc]
  iterate 10 refine (matchPrefix_append ?_).trans ?_
  all_goals first | exact matchPrefix_hexDigits | rfl | simp only [matchPrefix, hv, if_true]

end Wire

namespace Wire

def digit (n : Nat) : Char :=
  Nat.digitChar (n % 10)

-- The last `w` decimal digits of `n`.
def pad : (w : Nat) → (n : Nat) → List Char
  | 0,     _ => []
  | w + 1, n => pad w (n / 10) ++ [digit n]

@[simp]
theorem pad_length : (pad w n).length = w := by
  induction w generalizing n
  case zero => rfl
  case succ ih => simp [pad, ih]

theorem digit_toNat (n : Nat) : (digit n).toNat = 48 + n % 10 :=
  Nat.toNat_digitChar_of_lt_ten <| Nat.mod_lt _ (by decide)

theorem digit_ascii (n : Nat) : '0' ≤ digit n ∧ digit n ≤ '9' := by
  have h := digit_toNat n
  have : n % 10 < 10 := Nat.mod_lt _ (by decide)
  constructor
  case left  => exact (show 48 ≤ (digit n).toNat by omega)
  case right => exact (show (digit n).toNat ≤ 57 by omega)

theorem digit_lt_digit (h : m % 10 < n % 10) : digit m < digit n := by
  have hm := digit_toNat m
  have hn := digit_toNat n
  exact (show (digit m).toNat < (digit n).toNat by omega)

theorem pad_ascii (h : c ∈ pad w n) : '0' ≤ c ∧ c ≤ '9' := by
  induction w generalizing n
  case zero => simp [pad] at h
  case succ ih =>
    rcases List.mem_append.mp h with h | h
    · exact ih h
    · exact List.mem_singleton.mp h ▸ digit_ascii n

theorem matchPrefix_pad : matchPrefix (List.replicate w isDecimalDigit) (pad w n) = some [] :=
  matchPrefix_replicate pad_length fun _ h => isDecimalDigit_of_ascii <| pad_ascii h

theorem pad_lt_pad (hn : n < 10 ^ w) (h : m < n) : pad w m < pad w n := by
  induction w generalizing m n
  case zero => simp at hn; omega
  case succ ih =>
    rcases Nat.lt_or_ge (m / 10) (n / 10) with hd | hd
    · refine Lists.append_lt_of_lt (by simp) <| ih ?_ hd
      rw [Nat.pow_succ] at hn
      exact Nat.div_lt_of_lt_mul (by omega)
    · have he : m / 10 = n / 10 := by omega
      rw [pad, pad, he]
      exact Lists.append_lt_append_left <| List.cons_lt_cons_iff.mpr <| .inl <| digit_lt_digit (by omega)

theorem pad_append_lt {xs ys : List Char} (hn : n < 10 ^ w) (h : m < n ∨ m = n ∧ xs < ys) :
    pad w m ++ xs < pad w n ++ ys := by
  rcases h with h | ⟨rfl, h⟩
  · exact Lists.append_lt_of_lt (by simp) <| pad_lt_pad hn h
  · exact Lists.append_lt_append_left h

theorem pad_eq_zero (hn : n < 10 ^ w) (h : ∀ c ∈ pad w n, c = '0') : n = 0 := by
  induction w generalizing n
  case zero => omega
  case succ ih =>
    have hd := digit_toNat n
    rw [h _ <| List.mem_append_right _ <| List.mem_singleton_self _] at hd
    have := ih (n := n / 10) (by omega) fun c hc => h c <| List.mem_append_left _ hc
    change 48 = _ at hd
    omega

instance neZero10000 : NeZero 10000 := ⟨by simp⟩
instance neZero13 : NeZero 13 := ⟨by simp⟩
instance neZero32 : NeZero 32 := ⟨by simp⟩
instance neZero24 : NeZero 24 := ⟨by simp⟩
instance neZero60 : NeZero 60 := ⟨by simp⟩
instance neZeroNano : NeZero 1000000000 := ⟨by simp⟩

-- A UTC instant by its calendar components, as the `time` crate represents it.
@[ext]
structure OffsetDateTime where
  year       : Fin 10000
  month      : Fin 13
  day        : Fin 32
  hour       : Fin 24
  minute     : Fin 60
  second     : Fin 60
  nanosecond : Fin 1000000000
  deriving DecidableEq

namespace OffsetDateTime

def isLeapYear (y : Nat) : Bool :=
  y % 4 == 0 && (y % 100 != 0 || y % 400 == 0)

def daysInMonth (y m : Nat) : Nat :=
  match m with
  | 2            => if isLeapYear y then 29 else 28
  | 4 | 6 | 9 | 11 => 30
  | _            => 31

def nextDay (t : OffsetDateTime) : Option OffsetDateTime :=
  if t.day + 1 ≤ daysInMonth t.year t.month then
    some { t with day := Fin.ofNat 32 (t.day + 1) }
  else if t.month.val < 12 then
    some { t with day := 1, month := Fin.ofNat 13 (t.month + 1) }
  else if h : t.year.val + 1 < 10000 then
    some { t with day := 1, month := 1, year := ⟨t.year + 1, h⟩ }
  else
    none

-- Adds less than a minute. There is no result past the year 9999.
def addSeconds (t : OffsetDateTime) (n : Fin 60) : Option OffsetDateTime :=
  if h : t.second.val + n.val < 60 then
    some { t with second := ⟨t.second + n, h⟩ }
  else
    let t := { t with second := Fin.ofNat 60 (t.second + n - 60) }
    if h : t.minute.val + 1 < 60 then
      some { t with minute := ⟨t.minute + 1, h⟩ }
    else if h : t.hour.val + 1 < 24 then
      some { t with minute := 0, hour := ⟨t.hour + 1, h⟩ }
    else
      { t with minute := 0, hour := 0 }.nextDay

def fraction (t : OffsetDateTime) : List Char :=
  if t.nanosecond.val = 0 then [] else '.' :: (pad 9 t.nanosecond).rdropWhile (· == '0')

def dateAndTime (t : OffsetDateTime) : List Char :=
  pad 4 t.year ++ ['-'] ++ pad 2 t.month ++ ['-'] ++ pad 2 t.day ++ ['T'] ++
  pad 2 t.hour ++ [':'] ++ pad 2 t.minute ++ [':'] ++ pad 2 t.second

-- `time::OffsetDateTime::format(&Rfc3339)`: the seconds carry a fraction unless it is zero, and a
-- fraction is printed without its trailing zeros.
def format (t : OffsetDateTime) : String :=
  .ofList <| t.dateAndTime ++ t.fraction ++ ['Z']

-- The components down to the second. Instants of different seconds are ordered by them.
def wholeSecond (t : OffsetDateTime) : List Nat :=
  [t.year, t.month, t.day, t.hour, t.minute, t.second]

theorem dateAndTime_matches (t : OffsetDateTime) :
    matchPrefix datePattern t.dateAndTime = some [] := by
  unfold datePattern dateAndTime
  iterate 10 refine (matchPrefix_append ?_).trans ?_
  all_goals first | exact matchPrefix_pad | rfl

theorem fraction_isFractionAndZone (t : OffsetDateTime) :
    isFractionAndZone (t.fraction ++ ['Z']) := by
  unfold fraction
  split
  case isTrue  => rfl
  case isFalse h =>
    have hd : ∀ c ∈ (pad 9 t.nanosecond).rdropWhile (· == '0'), isDecimalDigit c := fun c hc =>
      isDecimalDigit_of_ascii <| pad_ascii <| (List.rdropWhile_prefix _ _).subset hc
    have hn : (pad 9 t.nanosecond).rdropWhile (· == '0') ≠ [] := by
      intro he
      rw [List.rdropWhile_eq_nil_iff] at he
      exact h <| pad_eq_zero t.nanosecond.isLt fun c hc => by simpa using he c hc
    simp only [List.cons_append, isFractionAndZone, Bool.and_eq_true]
    cases hf : (pad 9 t.nanosecond).rdropWhile (· == '0')
    case nil => contradiction
    case cons c cs =>
      rw [hf] at hd
      refine ⟨by simp [hd c], ?_⟩
      rw [List.dropWhile_append_of_pos hd]
      decide

theorem format_isDateTime (t : OffsetDateTime) : isDateTime t.format := by
  have h : matchPrefix (_ ++ []) (t.dateAndTime ++ (t.fraction ++ ['Z'])) = matchPrefix [] _ :=
    matchPrefix_append t.dateAndTime_matches
  simp only [List.append_nil, matchPrefix, ← List.append_assoc] at h
  simp only [isDateTime, format, String.toList_ofList, h, Option.any_some]
  exact t.fraction_isFractionAndZone

theorem dateAndTime_lt {t₁ t₂ : OffsetDateTime} (h : t₁.wholeSecond < t₂.wholeSecond) :
    t₁.dateAndTime < t₂.dateAndTime := by
  simp only [wholeSecond, List.cons_lt_cons_iff] at h
  simp only [dateAndTime, List.append_assoc]
  have hsep {c : Char} {xs ys} (h : xs < ys) : [c] ++ xs < [c] ++ ys := Lists.append_lt_append_left h
  refine pad_append_lt (by omega) <| h.imp_right <| And.imp_right fun h => hsep ?_
  refine pad_append_lt (by omega) <| h.imp_right <| And.imp_right fun h => hsep ?_
  refine pad_append_lt (by omega) <| h.imp_right <| And.imp_right fun h => hsep ?_
  refine pad_append_lt (by omega) <| h.imp_right <| And.imp_right fun h => hsep ?_
  refine pad_append_lt (by omega) <| h.imp_right <| And.imp_right fun h => hsep ?_
  exact pad_lt_pad (by omega) (by simpa using h)

-- Texts of instants of different seconds are ordered as the instants are.
theorem format_lt_format {t₁ t₂ : OffsetDateTime} (h : t₁.wholeSecond < t₂.wholeSecond) :
    t₁.format < t₂.format := by
  rw [String.lt_iff, format, format, String.toList_ofList, String.toList_ofList,
    List.append_assoc, List.append_assoc]
  exact Lists.append_lt_of_lt (by simp [dateAndTime]) <| dateAndTime_lt h

end OffsetDateTime
end Wire
