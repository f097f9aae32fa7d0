import NeoTavern.Lib.Assoc
import NeoTavern.Lib.CodeUnits
import NeoTavern.Lib.Lists
import NeoTavern.Lib.Scan
import Mathlib

namespace Shared.Macros

abbrev Text := CodeUnits

-- What the getters of a valid local date give; the weekday as its English name.
structure Clock where
  fullYear : Int
  month    : Nat
  date     : Nat
  hours    : Nat
  minutes  : Nat
  weekday  : String
  deriving DecidableEq

structure MacroContext where
  userName       : Text
  charName       : Text
  macroVariables : Option (List (Text × Text))
  now            : Clock
  deriving DecidableEq

def pad2 (value : Nat) : Text :=
  CodeUnits.ofString <| if value < 10 then "0" ++ toString value else toString value

-- `[\w-]`
def isNameUnit (u : UInt16) : Bool :=
  0x30 ≤ u && u ≤ 0x39 || 0x41 ≤ u && u ≤ 0x5a || 0x61 ≤ u && u ≤ 0x7a || u = 0x5f || u = 0x2d

def lower (u : UInt16) : UInt16 :=
  if 0x41 ≤ u && u ≤ 0x5a then u + 0x20 else u

def toLowerCase (key : Text) : Text :=
  key.map lower

-- `\{\{` and `\}\}`
def opened : Text → Option Text
  | 0x7b :: 0x7b :: t => some t
  | _                 => none

def closed : Text → Option Text
  | 0x7d :: 0x7d :: t => some t
  | _                 => none

-- `VAR_RE`
def readVar (t : Text) : Option (Text × Text) := do
  let t ← opened t
  let t := t.dropWhile CodeUnits.isSpace
  let rest ← closed <| (t.dropWhile isNameUnit).dropWhile CodeUnits.isSpace
  if t.takeWhile isNameUnit = [] then none else some (t.takeWhile isNameUnit, rest)

-- `\{\{\s*random\s*:`
def readHead (t : Text) : Option Text := do
  let t ← opened t
  let t := t.dropWhile CodeUnits.isSpace
  if toLowerCase (t.take 6) ≠ CodeUnits.ofString "random" then
    none
  else
    match (t.drop 6).dropWhile CodeUnits.isSpace with
    | []     => none
    | u :: t => if u = 0x3a then some t else none

-- `RANDOM_RE`. The white space behind the colon stays in the body: the first option is trimmed anyway.
def readRandom (t : Text) : Option (Text × Text) := do
  let t ← readHead t
  let rest ← closed <| t.dropWhile (· ≠ 0x7d)
  if t.takeWhile (· ≠ 0x7d) = [] then none else some (t.takeWhile (· ≠ 0x7d), rest)

def options (body : Text) : List Text :=
  ((body.splitOn 0x7e).map CodeUnits.trim).filter (· ≠ [])

-- What `Math.random` gives.
abbrev Draw := { r : ℚ // 0 ≤ r ∧ r < 1 }

def pick (draw : Draw) (body : Text) : Text :=
  match options body with
  | []      => []
  | options => (options[⌊draw.val * options.length⌋₊]?).getD []

def native (name : String) : Text :=
  CodeUnits.ofString <| "function " ++ name ++ "() \x7b [native code] \x7d"

-- What an object of variables inherits under a name, as the text that a match is replaced by.
def objectPrototype : List (Text × Text) :=
  (CodeUnits.ofString "constructor", native "Object") ::
  (CodeUnits.ofString "__proto__", CodeUnits.ofString "[object Object]") ::
  ["__defineGetter__", "__defineSetter__", "hasOwnProperty", "__lookupGetter__", "__lookupSetter__",
    "isPrototypeOf", "propertyIsEnumerable", "toString", "valueOf", "toLocaleString"].map fun name =>
    (CodeUnits.ofString name, native name)

def builtIn (ctx : MacroContext) (key : Text) : Option Text :=
  let now := ctx.now
  let time := pad2 now.hours ++ CodeUnits.ofString ":" ++ pad2 now.minutes
  let date := CodeUnits.ofString (toString now.fullYear) ++ CodeUnits.ofString "-" ++ pad2 (now.month + 1) ++
    CodeUnits.ofString "-" ++ pad2 now.date
  let isNight := 22 ≤ now.hours ∨ now.hours < 6
  Assoc.get
    [(CodeUnits.ofString "user", ctx.userName),
      (CodeUnits.ofString "char", ctx.charName),
      (CodeUnits.ofString "time", time),
      (CodeUnits.ofString "date", date),
      (CodeUnits.ofString "datetime", date ++ CodeUnits.ofString " " ++ time),
      (CodeUnits.ofString "year", CodeUnits.ofString (toString now.fullYear)),
      (CodeUnits.ofString "month", pad2 (now.month + 1)),
      (CodeUnits.ofString "day", pad2 now.date),
      (CodeUnits.ofString "hour", pad2 now.hours),
      (CodeUnits.ofString "minute", pad2 now.minutes),
      (CodeUnits.ofString "weekday", CodeUnits.ofString now.weekday),
      (CodeUnits.ofString "isnight", CodeUnits.ofString (if isNight then "true" else "false"))]
    (toLowerCase key)

-- `ctx.variables?.[key]`
def custom (ctx : MacroContext) (key : Text) : Option Text :=
  match ctx.macroVariables with
  | none      => none
  | some vars => (Assoc.get vars key).or (Assoc.get objectPrototype key)

def value (ctx : MacroContext) (key : Text) : Option Text :=
  (builtIn ctx key).or (custom ctx key)

section Reading

variable {t rest key body : Text} {u : UInt16}

theorem opened_eq_some : opened t = some rest ↔ t = 0x7b :: 0x7b :: rest := by
  constructor
  case mp =>
    intro h
    unfold opened at h
    split at h
    case h_1 => simp_all
    case h_2 => cases h
  case mpr =>
    intro h
    rw [h]
    rfl

theorem closed_eq_some : closed t = some rest ↔ t = 0x7d :: 0x7d :: rest := by
  constructor
  case mp =>
    intro h
    unfold closed at h
    split at h
    case h_1 => simp_all
    case h_2 => cases h
  case mpr =>
    intro h
    rw [h]
    rfl

theorem not_isSpace_of_isNameUnit (h : isNameUnit u) : CodeUnits.isSpace u = false := by
  simp [isNameUnit, CodeUnits.isSpace, UInt16.le_iff_toNat_le, ← UInt16.toNat_inj] at h ⊢
  omega

-- The units that stand between the braces of a macro in front of a name's end.
def isLead (u : UInt16) : Bool :=
  CodeUnits.isSpace u || isNameUnit u

theorem isLead_ne (h : isLead u) : u ≠ 0x7b ∧ u ≠ 0x7d ∧ u ≠ 0x3a := by
  simp [isLead, isNameUnit, CodeUnits.isSpace, UInt16.le_iff_toNat_le, ← UInt16.toNat_inj] at h ⊢
  omega

theorem dropWhile_append_of_all {p : UInt16 → Bool} {w : Text} (hw : ∀ u ∈ w, p u)
    (ht : ∀ u t', t = u :: t' → p u = false) : (w ++ t).dropWhile p = t := by
  rw [List.dropWhile_append_of_pos hw]
  cases t
  case nil       => rfl
  case cons u t' => exact List.dropWhile_cons_of_neg <| Bool.eq_false_iff.mp <| ht u t' rfl

theorem takeWhile_append_of_all {p : UInt16 → Bool} {w : Text} (hw : ∀ u ∈ w, p u)
    (ht : ∀ u t', t = u :: t' → p u = false) : (w ++ t).takeWhile p = w := by
  rw [List.takeWhile_append_of_pos hw]
  cases t
  case nil       => simp
  case cons u t' => simp [ht u t' rfl]

theorem readVar_eq_some : readVar t = some (key, rest) ↔ ∃ w₁ w₂,
    (∀ u ∈ w₁, CodeUnits.isSpace u) ∧ (∀ u ∈ w₂, CodeUnits.isSpace u) ∧ (∀ u ∈ key, isNameUnit u) ∧ key ≠ [] ∧
    t = 0x7b :: 0x7b :: (w₁ ++ (key ++ (w₂ ++ 0x7d :: 0x7d :: rest))) := by
  constructor
  case mp =>
    intro h
    simp only [readVar, Option.bind_eq_bind, Option.bind_eq_some_iff] at h
    have ⟨t₁, ho, t₂, hc, h⟩ := h
    rw [opened_eq_some] at ho
    rw [closed_eq_some] at hc
    split at h
    case isTrue => cases h
    case isFalse hk =>
      cases h
      have hw {p : UInt16 → Bool} {w : Text} : ∀ u ∈ w.takeWhile p, p u :=
        fun _ hu => List.mem_takeWhile_imp hu
      exists t₁.takeWhile CodeUnits.isSpace
      exists ((t₁.dropWhile CodeUnits.isSpace).dropWhile isNameUnit).takeWhile CodeUnits.isSpace
      refine ⟨hw, hw, hw, hk, ?_⟩
      rw [ho, ← hc, List.takeWhile_append_dropWhile, List.takeWhile_append_dropWhile, List.takeWhile_append_dropWhile]
  case mpr =>
    intro ⟨w₁, w₂, h₁, h₂, hk, hne, ht⟩
    have hspace : (w₁ ++ (key ++ (w₂ ++ 0x7d :: 0x7d :: rest))).dropWhile CodeUnits.isSpace =
        key ++ (w₂ ++ 0x7d :: 0x7d :: rest) := by
      apply dropWhile_append_of_all h₁
      intro u t' hu
      cases key
      case nil => exact absurd rfl hne
      case cons v key =>
        cases hu
        exact not_isSpace_of_isNameUnit <| hk u <| List.mem_cons_self
    have hend : ∀ u t', w₂ ++ 0x7d :: 0x7d :: rest = u :: t' → isNameUnit u = false := by
      intro u t' hu
      cases w₂
      case nil =>
        cases hu
        rfl
      case cons v w₂ =>
        cases hu
        exact Bool.eq_false_iff.mpr fun hn => by simp [not_isSpace_of_isNameUnit hn] at h₂
    have hdrop : (w₂ ++ 0x7d :: 0x7d :: rest).dropWhile CodeUnits.isSpace = 0x7d :: 0x7d :: rest := by
      apply dropWhile_append_of_all h₂
      intro u t' hu
      cases hu
      rfl
    simp only [readVar, Option.bind_eq_bind, Option.bind_eq_some_iff]
    refine ⟨_, opened_eq_some.mpr ht, rest, ?_, ?_⟩
    · rw [hspace, dropWhile_append_of_all hk hend, hdrop]
      exact closed_eq_some.mpr rfl
    · rw [hspace, takeWhile_append_of_all hk hend]
      exact if_neg hne

theorem lead_of_readVar (h : readVar t = some (key, rest)) :
    ∃ a, (∀ u ∈ a, isLead u) ∧ t = 0x7b :: 0x7b :: (a ++ 0x7d :: 0x7d :: rest) := by
  have ⟨w₁, w₂, h₁, h₂, hk, _, ht⟩ := readVar_eq_some.mp h
  exists w₁ ++ (key ++ w₂)
  constructor
  case left =>
    intro u hu
    simp only [List.mem_append] at hu
    cases hu
    case inl hu => simp [isLead, h₁ u hu]
    case inr hu =>
      cases hu
      case inl hu => simp [isLead, hk u hu]
      case inr hu => simp [isLead, h₂ u hu]
  case right => rw [ht, List.append_assoc, List.append_assoc]

theorem isLead_of_lower (h : lower u ∈ CodeUnits.ofString "random") : isLead u := by
  have hw : CodeUnits.ofString "random" = [0x72, 0x61, 0x6e, 0x64, 0x6f, 0x6d] := by decide
  rw [hw] at h
  by_cases hu : 0x41 ≤ u ∧ u ≤ 0x5a
  case pos => simp [isLead, isNameUnit, hu]
  case neg =>
    have hl : lower u = u := if_neg <| by simpa using hu
    rw [hl] at h
    simp only [List.mem_cons, List.not_mem_nil, or_false] at h
    rcases h with h | h | h | h | h | h <;> rw [h] <;> decide

theorem lead_of_readHead (h : readHead t = some rest) :
    ∃ a, (∀ u ∈ a, isLead u) ∧ t = 0x7b :: 0x7b :: (a ++ 0x3a :: rest) := by
  simp only [readHead, Option.bind_eq_bind, Option.bind_eq_some_iff] at h
  have ⟨t₁, ho, h⟩ := h
  rw [opened_eq_some] at ho
  split at h
  case isTrue => cases h
  case isFalse hw =>
    split at h
    case h_1 => cases h
    case h_2 v t₂ hd =>
      split at h
      case isFalse => cases h
      case isTrue hv =>
        cases h
        cases hv
        exists t₁.takeWhile CodeUnits.isSpace ++ ((t₁.dropWhile CodeUnits.isSpace).take 6 ++
          ((t₁.dropWhile CodeUnits.isSpace).drop 6).takeWhile CodeUnits.isSpace)
        constructor
        case left =>
          intro u hu
          simp only [List.mem_append] at hu
          cases hu
          case inl hu => simp [isLead, List.mem_takeWhile_imp hu]
          case inr hu =>
            cases hu
            case inl hu =>
              apply isLead_of_lower
              rw [← not_not.mp hw]
              exact List.mem_map_of_mem hu
            case inr hu => simp [isLead, List.mem_takeWhile_imp hu]
        case right =>
          rw [ho, ← hd, List.append_assoc, List.append_assoc, List.takeWhile_append_dropWhile,
            List.take_append_drop, List.takeWhile_append_dropWhile]

theorem lead_of_readRandom (h : readRandom t = some (body, rest)) :
    ∃ a, (∀ u ∈ a, isLead u) ∧ body ≠ [] ∧ (∀ u ∈ body, u ≠ 0x7d) ∧
      t = 0x7b :: 0x7b :: (a ++ 0x3a :: (body ++ 0x7d :: 0x7d :: rest)) := by
  simp only [readRandom, Option.bind_eq_bind, Option.bind_eq_some_iff] at h
  have ⟨t₁, hh, t₂, hc, h⟩ := h
  rw [closed_eq_some] at hc
  split at h
  case isTrue => cases h
  case isFalse hb =>
    cases h
    have ⟨a, ha, ht⟩ := lead_of_readHead hh
    refine ⟨a, ha, hb, ?_, ?_⟩
    · intro u hu
      simpa using List.mem_takeWhile_imp hu
    · rw [ht, ← hc, List.takeWhile_append_dropWhile]

end Reading

def var : Pattern UInt16 Text where
  read := readVar
  taken := by
    intro t key rest h
    have ⟨a, _, ht⟩ := lead_of_readVar h
    exists 0x7b :: 0x7b :: (a ++ [0x7d, 0x7d])
    exact ⟨List.cons_ne_nil _ _, by simp [ht]⟩

def random : Pattern UInt16 Text where
  read := readRandom
  taken := by
    intro t body rest h
    have ⟨a, _, _, _, ht⟩ := lead_of_readRandom h
    exists 0x7b :: 0x7b :: (a ++ 0x3a :: (body ++ [0x7d, 0x7d]))
    exact ⟨List.cons_ne_nil _ _, by simp [ht]⟩

-- The first pass. The k-th match takes the k-th draw, which it leaves alone if it lists no option.
def splice (draws : Nat → Draw) : Nat → List (Pattern.Piece UInt16 Text) → Text
  | _, []                => []
  | k, .unit u :: t      => u :: splice draws k t
  | k, .hit body _ :: t  => pick (draws k) body ++ splice draws (k + 1) t

def replaceMacros (text : Text) (ctx : MacroContext) (draws : Nat → Draw) : Text :=
  var.replace (fun key source => (value ctx key).getD source) <| splice draws 0 (random.scan text)

section Separation

variable {t rest key : Text}

theorem readVar_eq_none_of_ne {u : UInt16} (h : u ≠ 0x7b) : readVar (u :: t) = none := by
  cases hr : readVar (u :: t)
  case none => rfl
  case some hit =>
    have ⟨_, _, ht⟩ := lead_of_readVar hr
    cases ht
    exact absurd rfl h

theorem readHead_eq_none_of_ne {u : UInt16} (h : u ≠ 0x7b) : readHead (u :: t) = none := by
  cases hr : readHead (u :: t)
  case none => rfl
  case some rest =>
    have ⟨_, _, ht⟩ := lead_of_readHead hr
    cases ht
    exact absurd rfl h

-- Both patterns want two braces at the start.
theorem second_of_readVar {u v : UInt16} (h : readVar (u :: v :: t) = some (key, rest)) : v = 0x7b := by
  have ⟨_, _, ht⟩ := lead_of_readVar h
  cases ht
  rfl

theorem second_of_readHead {u v : UInt16} (h : readHead (u :: v :: t) = some rest) : v = 0x7b := by
  have ⟨_, _, ht⟩ := lead_of_readHead h
  cases ht
  rfl

-- Behind the start of a match of `VAR_RE`, nothing starts before its end.
theorem quiet_within {y z : Text} (h : readVar (y ++ z ++ rest) = some (key, rest)) (hy : y ≠ []) (hz : z ≠ []) :
    readVar (z ++ rest) = none ∧ readHead (z ++ rest) = none := by
  have ⟨a, ha, hall⟩ := lead_of_readVar h
  have ht : y ++ z = 0x7b :: 0x7b :: (a ++ [0x7d, 0x7d]) := by
    apply (List.append_left_inj rest).mp
    rw [hall]
    simp
  clear hall
  have hinner {u : UInt16} (hu : u ∈ a ++ [0x7d, 0x7d]) : u ≠ 0x7b := by
    cases List.mem_append.mp hu
    case inl hu => exact (isLead_ne <| ha u hu).1
    case inr hu =>
      have hu : u = 0x7d := by simpa using hu
      rw [hu]
      decide
  cases y
  case nil => exact absurd rfl hy
  case cons u y =>
    rw [List.cons_append, List.cons.injEq] at ht
    replace ht := ht.2
    cases y
    case cons v y =>
      rw [List.cons_append, List.cons.injEq] at ht
      cases z
      case nil => exact absurd rfl hz
      case cons w z =>
        have hw : w ≠ 0x7b := by
          apply hinner
          rw [← ht.2]
          simp
        exact ⟨readVar_eq_none_of_ne hw, readHead_eq_none_of_ne hw⟩
    case nil =>
      rw [List.nil_append] at ht
      rw [ht]
      cases hi : a ++ [0x7d, 0x7d]
      case nil => simp at hi
      case cons v i =>
        have hv : v ≠ 0x7b := hinner <| by rw [hi]; exact List.mem_cons_self
        constructor
        case left =>
          cases hr : readVar (0x7b :: v :: i ++ rest)
          case none      => rfl
          case some hit  => exact absurd (second_of_readVar hr) hv
        case right =>
          cases hr : readHead (0x7b :: v :: i ++ rest)
          case none   => rfl
          case some r => exact absurd (second_of_readHead hr) hv

theorem readRandom_eq_none_of_readHead (h : readHead t = none) : readRandom t = none := by
  simp [readRandom, h]

theorem var_separate : var.Separate := by
  intro y z rest key h hy hz
  exact (quiet_within h hy hz).1

-- A name ends with a brace, the word of a random macro with a colon.
theorem readHead_eq_none_of_readVar (h : readVar t = some (key, rest)) : readHead t = none := by
  cases hr : readHead t
  case none => rfl
  case some r =>
    have ⟨a, ha, hta⟩ := lead_of_readVar h
    have ⟨b, hb, htb⟩ := lead_of_readHead hr
    rw [hta] at htb
    have htb : a ++ 0x7d :: 0x7d :: rest = b ++ 0x3a :: r := by
      simpa using htb
    have hl := congrArg (List.dropWhile isLead) htb
    have hstop {v : UInt16} {c : Text} (hv : isLead v = false) : ∀ u t', v :: c = u :: t' → isLead u = false := by
      intro u t' hu
      cases hu
      exact hv
    rw [dropWhile_append_of_all ha <| hstop rfl, dropWhile_append_of_all hb <| hstop rfl] at hl
    cases hl

theorem readHead_within {m y z : Text} (h : readVar (m ++ rest) = some (key, rest)) (hm : m = y ++ z)
    (hz : z ≠ []) : readHead (z ++ rest) = none := by
  by_cases hy : y = []
  case pos =>
    rw [hy, List.nil_append] at hm
    rw [← hm]
    exact readHead_eq_none_of_readVar h
  case neg =>
    rw [hm] at h
    exact (quiet_within h hy hz).2

-- What a match of `VAR_RE` is does not depend on what stands behind it.
theorem readVar_append {m rest' : Text} (h : readVar (m ++ rest) = some (key, rest)) :
    readVar (m ++ rest') = some (key, rest') := by
  have ⟨w₁, w₂, h₁, h₂, hk, hne, ht⟩ := readVar_eq_some.mp h
  have hm : m = 0x7b :: 0x7b :: (w₁ ++ (key ++ (w₂ ++ [0x7d, 0x7d]))) := by
    apply (List.append_left_inj rest).mp
    rw [ht]
    simp
  exact readVar_eq_some.mpr ⟨w₁, w₂, h₁, h₂, hk, hne, by simp [hm]⟩

end Separation

section Splicing

variable {draws : Nat → Draw} {k : Nat} {t rest body : Text}

theorem splice_append {m : Text} (h : ∀ y z, m = y ++ z → z ≠ [] → readRandom (z ++ t) = none) :
    splice draws k (random.scan (m ++ t)) = m ++ splice draws k (random.scan t) := by
  induction m
  case nil => rfl
  case cons u m hi =>
    have hu : random.read (u :: (m ++ t)) = none := h [] (u :: m) rfl (List.cons_ne_nil u m)
    rw [List.cons_append, Pattern.scan_unit hu, splice, hi, List.cons_append]
    intro y z hm hz
    exact h (u :: y) z (by rw [hm, List.cons_append]) hz

-- The first pass leaves a name as it is.
theorem splice_of_readVar {m key : Text} (h : readVar (m ++ rest) = some (key, rest)) :
    splice draws k (random.scan (m ++ rest)) = m ++ splice draws k (random.scan rest) := by
  apply splice_append
  intro y z hm hz
  exact readRandom_eq_none_of_readHead <| readHead_within h hm hz

theorem pick_cases (draw : Draw) (body : Text) :
    options body = [] ∧ pick draw body = [] ∨ pick draw body ∈ options body := by
  cases ho : options body
  case nil => exact .inl ⟨rfl, by simp [pick, ho]⟩
  case cons a l =>
    apply Or.inr
    have hlt : ⌊draw.val * (a :: l).length⌋₊ < (a :: l).length := by
      rw [Nat.floor_lt (mul_nonneg draw.property.1 <| Nat.cast_nonneg _)]
      calc draw.val * (a :: l).length
        _ < 1 * (a :: l).length := by
          apply mul_lt_mul_of_pos_right draw.property.2
          simp only [List.length_cons]
          positivity
        _ = (a :: l).length := one_mul _
    simp only [pick, ho, List.getElem?_eq_getElem hlt, Option.getD_some]
    exact List.getElem_mem hlt

end Splicing

end Shared.Macros
