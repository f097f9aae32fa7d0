import Mathlib
import NeoTavern.Jobs.Cron
import NeoTavern.Lib.Lists

-- What expressions mean, and that the search finds the next of the times they mean.
namespace Jobs

open NumberText (isNumeral integer)

section Shapes

variable {part head start stop step : CodeUnits}

theorem not_mem_of_isNumeral {u : UInt16} (h : isNumeral part) (hu : NumberText.isDigit u = false) : u ∉ part := by
  simp only [isNumeral, Bool.and_eq_true, List.all_eq_true] at h
  intro hmem
  rw [h.right u hmem] at hu
  cases hu

-- Two numbers with a dash between them.
def Ranged (part start stop : CodeUnits) : Prop :=
  part = start ++ 0x2d :: stop ∧ isNumeral start ∧ isNumeral stop

theorem splitOn_of_ranged (h : Ranged part start stop) : part.splitOn 0x2d = [start, stop] :=
  Lists.splitOn_eq_pair_iff.mpr ⟨h.left, not_mem_of_isNumeral h.right.left rfl, not_mem_of_isNumeral h.right.right rfl⟩

theorem rangeMatch_iff : rangeMatch part = some (start, stop) ↔ Ranged part start stop := by
  constructor
  case mp =>
    intro h
    rw [rangeMatch] at h
    split at h
    case h_2             => cases h
    case h_1 a b hsplit =>
      split at h
      case isFalse    => cases h
      case isTrue hab =>
        cases h
        have ⟨ha, hb⟩ := (Bool.and_eq_true _ _).mp hab
        exact ⟨(Lists.splitOn_eq_pair_iff.mp hsplit).left, ha, hb⟩
  case mpr =>
    intro h
    simp [rangeMatch, splitOn_of_ranged h, h.right.left, h.right.right]

-- A star, a number or two numbers, and behind a slash the step.
def Stepped (part : CodeUnits) : StepMatch → Prop
  | .star step             => part = 0x2a :: 0x2f :: step ∧ isNumeral step
  | .single start step     => part = start ++ 0x2f :: step ∧ isNumeral start ∧ isNumeral step
  | .range start stop step => ∃ head, Ranged head start stop ∧ part = head ++ 0x2f :: step ∧ isNumeral step

theorem splitOn_of_stepped (hpart : part = head ++ 0x2f :: step) (hstep : isNumeral step) (hhead : 0x2f ∉ head) :
    part.splitOn 0x2f = [head, step] :=
  Lists.splitOn_eq_pair_iff.mpr ⟨hpart, hhead, not_mem_of_isNumeral hstep rfl⟩

theorem stepped_of_stepMatch {m : StepMatch} (h : stepMatch part = some m) : Stepped part m := by
  rw [stepMatch] at h
  split at h
  case h_2            => cases h
  case h_1 a n hsplit =>
    have hpart := (Lists.splitOn_eq_pair_iff.mp hsplit).left
    split at h
    case isTrue     => cases h
    case isFalse hn =>
      have hn : isNumeral n := by simpa using hn
      split at h
      case isTrue ha =>
        cases h
        exact ⟨by rw [hpart, ha]; rfl, hn⟩
      case isFalse   =>
        split at h
        case h_3                 => cases h
        case h_1 start hstart    =>
          split at h <;> cases h
          case isTrue ha =>
            have heq : start = a := by
              have hjoin : [0x2d].intercalate (a.splitOn 0x2d) = a := List.intercalate_splitOn 0x2d
              rwa [hstart, List.intercalate_singleton] at hjoin
            exact ⟨heq ▸ hpart, ha, hn⟩
        case h_2 start stop hab  =>
          split at h <;> cases h
          case isTrue hboth =>
            have ⟨ha, hb⟩ := (Bool.and_eq_true _ _).mp hboth
            exact ⟨a, ⟨(Lists.splitOn_eq_pair_iff.mp hab).left, ha, hb⟩, hpart, hn⟩

theorem stepMatch_of_stepped {m : StepMatch} (h : Stepped part m) : stepMatch part = some m := by
  cases m
  case star n      =>
    have ⟨hpart, hn⟩ := h
    have hsplit : part.splitOn 0x2f = [[0x2a], n] := splitOn_of_stepped hpart hn <| by decide
    simp [stepMatch, hsplit, hn]
  case single a n  =>
    have ⟨hpart, ha, hn⟩ := h
    have hsplit := splitOn_of_stepped hpart hn <| not_mem_of_isNumeral ha rfl
    have hdash : a.splitOn 0x2d = [a] := List.splitOn_eq_singleton <| not_mem_of_isNumeral ha rfl
    have hstar : a ≠ [0x2a] := fun heq => not_mem_of_isNumeral ha (u := 0x2a) rfl <| by simp [heq]
    simp [stepMatch, hsplit, hn, hstar, hdash, ha]
  case range a b n =>
    have ⟨head, hrange, hpart, hn⟩ := h
    have hslash : 0x2f ∉ head := by
      rw [hrange.left]
      simp [not_mem_of_isNumeral hrange.right.left (u := 0x2f) rfl, not_mem_of_isNumeral hrange.right.right (u := 0x2f) rfl]
    have hstar : head ≠ [0x2a] := fun heq => by
      have hdash : (0x2d : UInt16) ∈ [0x2a] := by rw [← heq, hrange.left]; simp
      simp at hdash
    simp [stepMatch, splitOn_of_stepped hpart hn hslash, hn, hstar, splitOn_of_ranged hrange, hrange.right.left,
      hrange.right.right]

theorem stepMatch_iff {m : StepMatch} : stepMatch part = some m ↔ Stepped part m :=
  ⟨stepped_of_stepMatch, stepMatch_of_stepped⟩

end Shapes

section Meaning

-- What an element of a field says. A number may be written as any text that is converted to it.
inductive Denotes (min max : Int) (part : CodeUnits) : Set Int → Prop
  | star (h : part = [0x2a]) : Denotes min max part (Set.Icc min max)
  | range (h : Ranged part start stop) (ha : integer start = some a) (hb : integer stop = some b)
      (hbounds : min ≤ a ∧ a ≤ b ∧ b ≤ max) : Denotes min max part (Set.Icc a b)
  | everyStep (h : Stepped part <| .star step) (hk : integer step = some k) (hpos : 1 ≤ k) :
      Denotes min max part { v | v ∈ Set.Icc min max ∧ k ∣ v - min }
  | singleStep (h : Stepped part <| .single start step) (ha : integer start = some a) (hk : integer step = some k)
      (hbounds : min ≤ a ∧ a ≤ max) (hpos : 1 ≤ k) : Denotes min max part { v | v ∈ Set.Icc a max ∧ k ∣ v - a }
  | rangeStep (h : Stepped part <| .range start stop step) (ha : integer start = some a) (hb : integer stop = some b)
      (hk : integer step = some k) (hbounds : min ≤ a ∧ a ≤ b ∧ b ≤ max) (hpos : 1 ≤ k) :
      Denotes min max part { v | v ∈ Set.Icc a b ∧ k ∣ v - a }
  | value (hne : part ≠ []) (hstep : ∀ m, ¬Stepped part m) (hrange : ∀ start stop, ¬Ranged part start stop)
      (hstar : part ≠ [0x2a]) (ha : integer part = some a) (hbounds : min ≤ a ∧ a ≤ max) : Denotes min max part {a}

variable {min max a b k v : Int} {vs : List Int} {part step start stop : CodeUnits} {set : Set Int}

theorem mem_stepped {k : Nat} (h : a ≤ b) (hk : 1 ≤ k) :
    v ∈ stepped a b k ↔ v ∈ Set.Icc a b ∧ (k : Int) ∣ v - a := by
  simp only [stepped, List.mem_map, List.mem_range, Set.mem_Icc]
  constructor
  case mp =>
    rintro ⟨n, hn, hv⟩
    have hle : n * k ≤ (b - a).toNat := (Nat.le_div_iff_mul_le hk).mp <| Nat.le_of_lt_succ hn
    exact ⟨⟨by omega, by omega⟩, n, by rw [← hv]; push_cast; ring⟩
  case mpr =>
    rintro ⟨⟨ha, hb⟩, n, hn⟩
    have hkpos : (0 : Int) < k := by exact_mod_cast hk
    have hnonneg : 0 ≤ n := Int.nonneg_of_mul_nonneg_right (by omega) hkpos
    obtain ⟨m, rfl⟩ := Int.eq_ofNat_of_zero_le hnonneg
    have hmul : ((m * k : Nat) : Int) = v - a := by rw [hn]; push_cast; ring
    refine ⟨m, Nat.lt_succ_of_le <| (Nat.le_div_iff_mul_le hk).mpr <| by omega, by omega⟩

theorem bounded_eq_ok {x y : Option Int} {k : Nat} : bounded part min max k x y = .ok vs ↔ ∃ a b, x = some a ∧
    y = some b ∧ (min ≤ a ∧ a ≤ b ∧ b ≤ max) ∧ vs = stepped a b k := by
  cases x <;> cases y
  case some.some a b =>
    rw [bounded]
    split
    case isTrue h  => simp [throw, throwThe, MonadExceptOf.throw]; omega
    case isFalse h => simp [pure, Except.pure, eq_comm]; omega
  all_goals simp [bounded, throw, throwThe, MonadExceptOf.throw]

theorem stepOf_eq_ok {n : Nat} : stepOf part step = .ok n ↔ ∃ k, integer step = some k ∧ 1 ≤ k ∧ n = k.toNat := by
  rw [stepOf]
  cases integer step
  case none   => simp [throw, throwThe, MonadExceptOf.throw]
  case some k =>
    dsimp only
    split
    case isTrue h  => simp [throw, throwThe, MonadExceptOf.throw]; omega
    case isFalse h => simp [pure, Except.pure, eq_comm]; omega

theorem mem_steps (h : a ≤ b) (hk : 1 ≤ k) :
    v ∈ stepped a b k.toNat ↔ v ∈ { v | v ∈ Set.Icc a b ∧ k ∣ v - a } := by
  have hcast : (k.toNat : Int) = k := by omega
  rw [mem_stepped h (by omega), hcast]
  rfl

theorem mem_stepped_one (h : a ≤ b) : v ∈ stepped a b 1 ↔ v ∈ Set.Icc a b := by
  simp [mem_stepped h (Nat.le_refl 1)]

-- The numbers of a step form, which are read once its step is known to be positive.
theorem stepped_values {x y : Option Int}
    (h : (stepOf part step >>= fun k => bounded part min max k x y) = .ok vs) :
    ∃ a b k, x = some a ∧ y = some b ∧ integer step = some k ∧ (min ≤ a ∧ a ≤ b ∧ b ≤ max) ∧ 1 ≤ k ∧
      { v | v ∈ vs } = { v | v ∈ Set.Icc a b ∧ k ∣ v - a } := by
  have ⟨n, hn, hvalues⟩ := Except.bind_eq_ok.mp h
  have ⟨k, hk, hpos, heq⟩ := stepOf_eq_ok.mp hn
  have ⟨a, b, ha, hb, hbounds, hvs⟩ := bounded_eq_ok.mp hvalues
  refine ⟨a, b, k, ha, hb, hk, hbounds, hpos, ?_⟩
  rw [hvs, heq]
  exact Set.ext fun v => mem_steps hbounds.right.left hpos

theorem partValues_denotes (hle : min ≤ max) (h : partValues min max part = .ok vs) :
    Denotes min max part.trim { v | v ∈ vs } := by
  rw [partValues] at h
  dsimp only at h
  split at h
  case isTrue         => cases h
  case isFalse hne    =>
    split at h
    case h_1 step hmatch            =>
      have ⟨a, b, k, ha, hb, hk, _, hpos, hset⟩ := stepped_values h
      cases ha
      cases hb
      rw [hset]
      exact .everyStep (stepMatch_iff.mp hmatch) hk hpos
    case h_2 start step hmatch      =>
      have ⟨a, b, k, ha, hb, hk, hbounds, hpos, hset⟩ := stepped_values h
      cases hb
      rw [hset]
      exact .singleStep (stepMatch_iff.mp hmatch) ha hk ⟨hbounds.left, hbounds.right.left⟩ hpos
    case h_3 start stop step hmatch =>
      have ⟨a, b, k, ha, hb, hk, hbounds, hpos, hset⟩ := stepped_values h
      rw [hset]
      exact .rangeStep (stepMatch_iff.mp hmatch) ha hb hk hbounds hpos
    case h_4 hnone                  =>
      have hstep (m) : ¬Stepped part.trim m := fun hm => by simp [stepMatch_iff.mpr hm] at hnone
      split at h
      case h_1 start stop hmatch =>
        have ⟨a, b, ha, hb, hbounds, hvs⟩ := bounded_eq_ok.mp h
        have hset : { v | v ∈ vs } = Set.Icc a b := hvs ▸ Set.ext fun v => mem_stepped_one hbounds.right.left
        rw [hset]
        exact .range (rangeMatch_iff.mp hmatch) ha hb hbounds
      case h_2 hnorange          =>
        split at h
        case isTrue hstar  =>
          cases h
          have hset : { v | v ∈ stepped min max 1 } = Set.Icc min max := Set.ext fun v => mem_stepped_one hle
          rw [hset]
          exact .star hstar
        case isFalse hstar =>
          split at h
          case h_2     => cases h
          case h_1 a ha =>
            split at h
            case isTrue          => cases h
            case isFalse hbounds =>
              cases h
              have hset : { v | v ∈ [a] } = {a} := Set.ext fun v => by simp
              rw [hset]
              exact .value hne hstep (fun start stop hr => by simp [rangeMatch_iff.mpr hr] at hnorange) hstar ha
                (by omega)

theorem values_of_stepped {x y : Option Int} (hk : integer step = some k) (hx : x = some a) (hy : y = some b)
    (hbounds : min ≤ a ∧ a ≤ b ∧ b ≤ max) (hpos : 1 ≤ k) :
    (stepOf part step >>= fun k => bounded part min max k x y) = .ok (stepped a b k.toNat) :=
  Except.bind_eq_ok.mpr ⟨k.toNat, stepOf_eq_ok.mpr ⟨k, hk, hpos, rfl⟩, bounded_eq_ok.mpr ⟨a, b, hx, hy, hbounds, rfl⟩⟩

theorem Denotes.ne_nil (h : Denotes min max part set) : part ≠ [] := by
  cases h
  case star h              => simp [h]
  case range h _ _ _       => simp [h.left]
  case everyStep h _ _     => simp [h.left]
  case singleStep h _ _ _ _ => simp [h.left]
  case rangeStep h _ _ _ _ _ =>
    have ⟨_, _, hpart, _⟩ := h
    simp [hpart]
  case value h _ _ _ _ _   => exact h

theorem not_stepped_of_slash (h : 0x2f ∉ part) (m : StepMatch) : ¬Stepped part m := by
  intro hm
  cases m
  case star        => exact h <| by simp [hm.left]
  case single      => exact h <| by simp [hm.left]
  case range       =>
    have ⟨_, _, hpart, _⟩ := hm
    exact h <| by simp [hpart]

theorem stepMatch_eq_none (h : ∀ m, ¬Stepped part m) : stepMatch part = none :=
  Option.eq_none_iff_forall_ne_some.mpr fun m hm => h m <| stepMatch_iff.mp hm

theorem Ranged.not_stepped (h : Ranged part start stop) (m : StepMatch) : ¬Stepped part m := by
  apply not_stepped_of_slash
  rw [h.left]
  have hstart : 0x2f ∉ start := not_mem_of_isNumeral h.right.left rfl
  have hstop : 0x2f ∉ stop := not_mem_of_isNumeral h.right.right rfl
  simp [hstart, hstop]

theorem partValues_of_denotes (hle : min ≤ max) (h : Denotes min max part.trim set) :
    ∃ vs, partValues min max part = .ok vs ∧ { v | v ∈ vs } = set := by
  rw [partValues]
  dsimp only
  rw [if_neg h.ne_nil]
  cases h
  case star h                            =>
    have hnone : stepMatch [0x2a] = none := stepMatch_eq_none <| not_stepped_of_slash <| by decide
    have hnorange : rangeMatch [0x2a] = none := by decide
    rw [h, hnone]
    simp only [hnorange, if_true]
    exact ⟨_, rfl, Set.ext fun v => mem_stepped_one hle⟩
  case range start stop a b h ha hb hbounds  =>
    rw [stepMatch_eq_none h.not_stepped, rangeMatch_iff.mpr h]
    exact ⟨_, bounded_eq_ok.mpr ⟨a, b, ha, hb, hbounds, rfl⟩, Set.ext fun v => mem_stepped_one hbounds.right.left⟩
  case everyStep h hk hpos                   =>
    rw [stepMatch_iff.mpr h]
    exact ⟨_, values_of_stepped hk rfl rfl ⟨le_rfl, hle, le_rfl⟩ hpos, Set.ext fun v => mem_steps hle hpos⟩
  case singleStep h ha hk hbounds hpos       =>
    rw [stepMatch_iff.mpr h]
    exact ⟨_, values_of_stepped hk ha rfl ⟨hbounds.left, hbounds.right, le_rfl⟩ hpos,
      Set.ext fun v => mem_steps hbounds.right hpos⟩
  case rangeStep h ha hb hk hbounds hpos     =>
    rw [stepMatch_iff.mpr h]
    exact ⟨_, values_of_stepped hk ha hb hbounds hpos, Set.ext fun v => mem_steps hbounds.right.left hpos⟩
  case value a hne hstep hrange hstar ha hbounds =>
    have hnorange : rangeMatch part.trim = none :=
      Option.eq_none_iff_forall_ne_some.mpr fun r hr => hrange r.fst r.snd <| rangeMatch_iff.mp hr
    have hin : ¬(a < min ∨ a > max) := by omega
    rw [stepMatch_eq_none hstep, hnorange]
    simp only [hstar, if_false, ha, hin]
    exact ⟨_, rfl, Set.ext fun v => by simp⟩

theorem Denotes.nonempty (hle : min ≤ max) (h : Denotes min max part set) : set.Nonempty := by
  cases h
  case star                                      => exact ⟨min, le_rfl, hle⟩
  case range a _ _ _ _ hbounds                   => exact ⟨a, le_rfl, hbounds.right.left⟩
  case everyStep                                 => exact ⟨min, ⟨le_rfl, hle⟩, by simp⟩
  case singleStep a _ _ _ _ hbounds _            => exact ⟨a, ⟨le_rfl, hbounds.right⟩, by simp⟩
  case rangeStep a _ _ _ _ _ _ hbounds _         => exact ⟨a, ⟨le_rfl, hbounds.right.left⟩, by simp⟩
  case value a _ _ _ _ _ _                       => exact ⟨a, rfl⟩

-- A field stands for what any of its elements does.
def Field (min max : Int) (text : CodeUnits) (set : Set Int) : Prop :=
  ∃ sets, List.Forall₂ (fun part set => Denotes min max (CodeUnits.trim part) set) (text.splitOn 0x2c) sets ∧
    set = { v | ∃ set ∈ sets, v ∈ set }

theorem fieldValues_eq_ok {text : CodeUnits} : fieldValues text min max = .ok vs ↔
    ∃ parts, List.Forall₂ (fun part values => partValues min max part = .ok values) (text.splitOn 0x2c) parts ∧
      vs = parts.flatten ∧ vs ≠ [] := by
  simp only [fieldValues, Except.bind_eq_ok, Except.flatMapM_eq_ok]
  constructor
  case mp =>
    intro ⟨values, ⟨parts, hparts, hvalues⟩, h⟩
    split at h
    case isTrue     => cases h
    case isFalse hne =>
      cases h
      exact ⟨parts, hparts, hvalues, by simpa using hne⟩
  case mpr =>
    intro ⟨parts, hparts, hvalues, hne⟩
    exact ⟨vs, ⟨parts, hparts, hvalues⟩, by simp [hne, pure, Except.pure]⟩

theorem exists_values {l : List CodeUnits} (hle : min ≤ max)
    (h : List.Forall₂ (fun part set => Denotes min max (CodeUnits.trim part) set) l sets) :
    ∃ parts, List.Forall₂ (fun part values => partValues min max part = .ok values) l parts ∧
      ∀ v, v ∈ parts.flatten ↔ ∃ set ∈ sets, v ∈ set := by
  induction h
  case nil                  => exact ⟨[], .nil, by simp⟩
  case cons hpart _ ih      =>
    have ⟨values, hvalues, hset⟩ := partValues_of_denotes hle hpart
    have ⟨parts, hparts, hmem⟩ := ih
    exact ⟨values :: parts, .cons hvalues hparts, fun v => by simp [← hset, ← hmem]⟩

theorem fieldValues_iff {text : CodeUnits} (hle : min ≤ max) :
    (∃ vs, fieldValues text min max = .ok vs ∧ { v | v ∈ vs } = set) ↔ Field min max text set := by
  constructor
  case mp =>
    intro ⟨vs, hvs, hset⟩
    have ⟨parts, hparts, hflatten, _⟩ := fieldValues_eq_ok.mp hvs
    refine ⟨parts.map fun values => { v | v ∈ values }, ?_, ?_⟩
    case refine_1 =>
      rw [List.forall₂_map_right_iff]
      exact hparts.imp fun _ _ h => partValues_denotes hle h
    case refine_2 =>
      rw [← hset, hflatten]
      ext v
      simp
  case mpr =>
    intro ⟨sets, hsets, hset⟩
    have ⟨parts, hparts, hmem⟩ := exists_values hle hsets
    refine ⟨parts.flatten, fieldValues_eq_ok.mpr ⟨parts, hparts, rfl, ?_⟩, ?_⟩
    case refine_1 =>
      -- The first element stands for some number.
      have hne := List.splitOn_ne_nil 0x2c text
      generalize text.splitOn 0x2c = elements at hsets hne
      cases hsets
      case nil              => exact absurd rfl hne
      case cons hpart _     =>
        have ⟨v, hv⟩ := hpart.nonempty hle
        exact List.ne_nil_of_mem <| (hmem v).mpr ⟨_, List.mem_cons_self, hv⟩
    case refine_2 =>
      rw [hset]
      exact Set.ext hmem

end Meaning

section Expressions

variable {expression : CodeUnits} {minutes hours daysOfMonth months daysOfWeek : Set Int}

def CronSchedule.Means (cron : CronSchedule) (minutes hours daysOfMonth months daysOfWeek : Set Int) : Prop :=
  { v | v ∈ cron.minutes } = minutes ∧ { v | v ∈ cron.hours } = hours ∧ { v | v ∈ cron.daysOfMonth } = daysOfMonth ∧
  { v | v ∈ cron.months } = months ∧ { v | v ∈ cron.daysOfWeek } = daysOfWeek

-- Five fields within their bounds. The seventh day of a week is Sunday as well.
def Grammar (expression : CodeUnits) (minutes hours daysOfMonth months daysOfWeek : Set Int) : Prop :=
  ∃ minute hour dayOfMonth month dayOfWeek days,
    expression.trim.splitSpace = [minute, hour, dayOfMonth, month, dayOfWeek] ∧
    Field 0 59 minute minutes ∧ Field 0 23 hour hours ∧ Field 1 31 dayOfMonth daysOfMonth ∧ Field 1 12 month months ∧
    Field 0 7 dayOfWeek days ∧ daysOfWeek = { v | v ∈ days ∨ v = 0 ∧ 7 ∈ days }

theorem sunday_eq {dow : List Int} :
    { v | v ∈ if dow.contains 7 then 0 :: dow else dow } = { v | v ∈ { v | v ∈ dow } ∨ v = 0 ∧ 7 ∈ { v | v ∈ dow } } := by
  ext v
  by_cases h : 7 ∈ dow <;> simp [h, or_comm]

theorem grammar_of_parseCron {cron : CronSchedule} (h : parseCron expression = .ok cron)
    (hmeans : cron.Means minutes hours daysOfMonth months daysOfWeek) :
    Grammar expression minutes hours daysOfMonth months daysOfWeek := by
  have ⟨hminutes, hhours, hdays, hmonths, hweek⟩ := hmeans
  rw [parseCron] at h
  split at h
  case h_2 => cases h
  case h_1 minute hour dayOfMonth month dayOfWeek hsplit =>
    simp only [Except.bind_eq_ok, Except.pure_eq_ok] at h
    have ⟨dow, hdow, ms, hms, hs, hhs, ds, hds, mos, hmos, heq⟩ := h
    subst heq
    refine ⟨minute, hour, dayOfMonth, month, dayOfWeek, { v | v ∈ dow }, hsplit, ?_, ?_, ?_, ?_, ?_, ?_⟩
    case refine_1 => exact (fieldValues_iff <| by decide).mp ⟨ms, hms, hminutes⟩
    case refine_2 => exact (fieldValues_iff <| by decide).mp ⟨hs, hhs, hhours⟩
    case refine_3 => exact (fieldValues_iff <| by decide).mp ⟨ds, hds, hdays⟩
    case refine_4 => exact (fieldValues_iff <| by decide).mp ⟨mos, hmos, hmonths⟩
    case refine_5 => exact (fieldValues_iff <| by decide).mp ⟨dow, hdow, rfl⟩
    case refine_6 => rw [← hweek, sunday_eq]

theorem parseCron_of_grammar (h : Grammar expression minutes hours daysOfMonth months daysOfWeek) :
    ∃ cron, parseCron expression = .ok cron ∧ cron.Means minutes hours daysOfMonth months daysOfWeek := by
  have ⟨minute, hour, dayOfMonth, month, dayOfWeek, days, hsplit, hminute, hhour, hday, hmonth, hdow, hweek⟩ := h
  have ⟨ms, hms, hminutes⟩ := (fieldValues_iff <| by decide).mpr hminute
  have ⟨hs, hhs, hhours⟩   := (fieldValues_iff <| by decide).mpr hhour
  have ⟨ds, hds, hdays⟩    := (fieldValues_iff <| by decide).mpr hday
  have ⟨mos, hmos, hmonths⟩ := (fieldValues_iff <| by decide).mpr hmonth
  have ⟨dow, hdows, hdays'⟩ := (fieldValues_iff <| by decide).mpr hdow
  have hparse : parseCron expression =
      .ok ⟨ms, hs, ds, mos, if dow.contains 7 then 0 :: dow else dow⟩ := by
    rw [parseCron, hsplit]
    simp only [hms, hhs, hds, hmos, hdows]
    rfl
  refine ⟨_, hparse, hminutes, hhours, hdays, hmonths, ?_⟩
  rw [hweek, ← hdays', sunday_eq]

-- The expressions that are accepted are those of the grammar, with the numbers it gives them.
theorem parseCron_iff_grammar :
    (∃ cron, parseCron expression = .ok cron ∧ cron.Means minutes hours daysOfMonth months daysOfWeek) ↔
      Grammar expression minutes hours daysOfMonth months daysOfWeek := by
  constructor
  case mp  => exact fun ⟨_, hcron, hmeans⟩ => grammar_of_parseCron hcron hmeans
  case mpr => exact parseCron_of_grammar

end Expressions

section Search

variable {cron : CronSchedule} {start limit timestamp time : Int} {n : Nat} {expression : CodeUnits}
  {minutes hours daysOfMonth months daysOfWeek : Set Int}

theorem firstMatch_eq_some (h : firstMatch cron limit n timestamp = some time) :
    time ≤ limit ∧ cron.fires time ∧ minuteMs ∣ time - timestamp ∧
      ∀ t, timestamp ≤ t → t < time → minuteMs ∣ t - timestamp → ¬cron.fires t := by
  induction n generalizing timestamp
  case zero      => cases h
  case succ n ih =>
    rw [firstMatch] at h
    split at h
    case isFalse     => cases h
    case isTrue hle  =>
      split at h
      case isTrue hfires  =>
        cases h
        exact ⟨hle, hfires, by simp, fun t hfrom hto => by omega⟩
      case isFalse hfires =>
        obtain ⟨hlimit, htime, hdvd, hleast⟩ := ih h
        refine ⟨hlimit, htime, ?_, ?_⟩
        case refine_1 =>
          rw [minuteMs] at hdvd ⊢
          omega
        case refine_2 =>
          intro t hfrom hto hmul
          by_cases heq : t = timestamp
          case pos => exact heq ▸ hfires
          case neg =>
            apply hleast t _ hto <;> rw [minuteMs] at hmul ⊢ <;> omega

theorem firstMatch_eq_none (h : firstMatch cron limit n timestamp = none) (hfrom : timestamp ≤ time)
    (hlimit : time ≤ limit) (hdvd : minuteMs ∣ time - timestamp) (hn : time < timestamp + n * minuteMs) :
    ¬cron.fires time := by
  induction n generalizing timestamp
  case zero      => simp at hn; omega
  case succ n ih =>
    rw [firstMatch] at h
    split at h
    case isFalse hgt => omega
    case isTrue      =>
      split at h
      case isTrue         => cases h
      case isFalse hfires =>
        by_cases heq : time = timestamp
        case pos => exact heq ▸ hfires
        case neg =>
          apply ih h <;> simp only [minuteMs] at hdvd hn ⊢ <;> push_cast at hn ⊢ <;> omega

-- The whole minutes after `start`, five years on, in which a schedule fires.
def CronSchedule.Later (cron : CronSchedule) (start : Int) : Set Int :=
  { t | start < t ∧ t ≤ start + 5 * 365 * dayMs ∧ minuteMs ∣ t ∧ cron.fires t }

theorem nextAfter_eq_some (h : cron.nextAfter start = some time) : isTime start ∧ IsLeast (cron.Later start) time := by
  rw [CronSchedule.nextAfter] at h
  split at h
  case isFalse      => cases h
  case isTrue htime =>
    have hle := le_of_firstMatch h
    obtain ⟨hlimit, hfires, hdvd, hleast⟩ := firstMatch_eq_some h
    have hmul : minuteMs ∣ start - start % minuteMs := Int.dvd_self_sub_emod
    refine ⟨htime, ⟨?_, hlimit, ?_, hfires⟩, ?_⟩
    case refine_1 => simp only [minuteMs] at hle; omega
    case refine_2 => simp only [minuteMs] at hdvd hmul ⊢; omega
    case refine_3 =>
      rintro t ⟨hfrom, _, ht, htfires⟩
      by_contra hlt
      refine hleast t ?_ (by omega) ?_ htfires <;> simp only [minuteMs] at ht hmul ⊢ <;> omega

theorem nextAfter_eq_none (h : cron.nextAfter start = none) (hstart : isTime start) : cron.Later start = ∅ := by
  rw [CronSchedule.nextAfter, if_pos hstart] at h
  have hmul : minuteMs ∣ start - start % minuteMs := Int.dvd_self_sub_emod
  refine Set.eq_empty_iff_forall_notMem.mpr ?_
  rintro t ⟨hfrom, hlimit, ht, hfires⟩
  refine firstMatch_eq_none h ?_ hlimit ?_ ?_ hfires <;> simp only [minuteMs, dayMs] at * <;> omega

theorem nextAfter_iff : cron.nextAfter start = some time ↔ isTime start ∧ IsLeast (cron.Later start) time := by
  constructor
  case mp  => exact nextAfter_eq_some
  case mpr =>
    intro ⟨hstart, hleast⟩
    cases hnext : cron.nextAfter start
    case none       => exact absurd hleast.left <| by simp [nextAfter_eq_none hnext hstart]
    case some time' => exact congrArg some <| (nextAfter_eq_some hnext).right.unique hleast

-- The whole minutes in which a time has parts that are asked for.
def Matching (minutes hours daysOfMonth months daysOfWeek : Set Int) : Set Int :=
  { t | isTime t ∧ minuteMs ∣ t ∧ utcMinutes t ∈ minutes ∧ utcHours t ∈ hours ∧ utcDate t ∈ daysOfMonth ∧
    utcMonth t + 1 ∈ months ∧ utcDay t ∈ daysOfWeek }

theorem later_of_means (h : cron.Means minutes hours daysOfMonth months daysOfWeek) : cron.Later start =
    { t | t ∈ Matching minutes hours daysOfMonth months daysOfWeek ∧ start < t ∧ t ≤ start + 5 * 365 * dayMs } := by
  obtain ⟨rfl, rfl, rfl, rfl, rfl⟩ := h
  ext t
  simp only [CronSchedule.Later, Matching, CronSchedule.fires, Set.mem_ofPred_eq, Bool.and_eq_true,
    List.contains_iff_mem]
  tauto

theorem exists_means : ∃ minutes hours daysOfMonth months daysOfWeek,
    cron.Means minutes hours daysOfMonth months daysOfWeek :=
  ⟨_, _, _, _, _, rfl, rfl, rfl, rfl, rfl⟩

-- An expression of the grammar gives the first whole minute that it means, and else there is an error.
theorem nextOf_iff : nextOf start expression = .ok time ↔ ∃ minutes hours daysOfMonth months daysOfWeek,
    Grammar expression minutes hours daysOfMonth months daysOfWeek ∧ isTime start ∧
    IsLeast { t | t ∈ Matching minutes hours daysOfMonth months daysOfWeek ∧ start < t ∧ t ≤ start + 5 * 365 * dayMs }
      time := by
  have hnext (cron) : nextAfter start cron = .ok time ↔ cron.nextAfter start = some time := by
    rw [nextAfter]
    cases cron.nextAfter start <;> simp [pure, Except.pure, throw, throwThe, MonadExceptOf.throw]
  simp only [nextOf, Except.bind_eq_ok, hnext, nextAfter_iff]
  constructor
  case mp =>
    rintro ⟨cron, hcron, hstart, hleast⟩
    obtain ⟨minutes, hours, days, months, week, hmeans⟩ := @exists_means cron
    refine ⟨minutes, hours, days, months, week, grammar_of_parseCron hcron hmeans, hstart, ?_⟩
    rwa [← later_of_means hmeans]
  case mpr =>
    rintro ⟨_, _, _, _, _, hgrammar, hstart, hleast⟩
    obtain ⟨cron, hcron, hmeans⟩ := parseCron_of_grammar hgrammar
    refine ⟨cron, hcron, hstart, ?_⟩
    rwa [later_of_means hmeans]

end Search
end Jobs
