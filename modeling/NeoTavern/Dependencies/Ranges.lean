import Mathlib
import NeoTavern.Dependencies.Semver
import NeoTavern.Lib.Comparison
import NeoTavern.Lib.Lists

namespace Dependencies

open Comparison (order)
open Database (trim isWhiteSpace)
open ModuleMap (Text codeUnits)

section Precedence

-- The characters that the pattern of a tag lets through are ASCII.
def IsAscii (t : Text) : Prop :=
  ∀ c ∈ t, c.toNat < 128

-- Numbers are below texts, and texts are in the order of their characters.
def Identifier.rank : Identifier → ℕ ⊕ₗ List Char
  | .number n => toLex (.inl n)
  | .text t   => toLex (.inr t)

namespace ParsedVersion

-- Where the identifiers of a version stand: a release is above all prereleases, and a larger set of
-- identifiers above the smaller ones that it starts with.
def prereleaseRank (v : ParsedVersion) : WithTop (List (ℕ ⊕ₗ List Char)) :=
  if v.prerelease = [] then ⊤ else (v.prerelease.map Identifier.rank : List _)

def precedence (v : ParsedVersion) : ℕ ×ₗ ℕ ×ₗ ℕ ×ₗ WithTop (List (ℕ ⊕ₗ List Char)) :=
  toLex (v.major, toLex (v.minor, toLex (v.patch, v.prereleaseRank)))

-- What the pattern of a version says of the identifiers.
structure Tagged (v : ParsedVersion) : Prop where
  texts : ∀ t, .text t ∈ v.prerelease → IsAscii t
  head  : ∀ t, v.prerelease.head? = some (.text t) → ∃ c rest, t = c :: rest ∧ '0' ≤ c

end ParsedVersion

theorem codeUnits_of_ascii (h : IsAscii t) : codeUnits t = t.map Char.toNat := by
  induction t
  case nil         => rfl
  case cons c t ih =>
    have hc : c.toNat < 0x10000 := (h c List.mem_cons_self).trans (by decide)
    have ht := ih fun d hd => h d <| List.mem_cons_of_mem _ hd
    rw [codeUnits] at ht ⊢
    simp [hc, ht]

theorem toNat_strictMono : StrictMono Char.toNat :=
  fun _ _ h => h

theorem compareIdentifier_eq (hi : ∀ t, i = .text t → IsAscii t) (hj : ∀ t, j = .text t → IsAscii t) :
    compareIdentifier i j = order i.rank j.rank := by
  cases i <;> cases j
  case number.number m n =>
    rw [compareIdentifier, Comparison.compare_eq_order, Identifier.rank, Identifier.rank, Comparison.order_inl]
  case number.text n t   => exact (Comparison.order_eq_lt_iff.mpr <| Sum.Lex.inl_lt_inr n t).symm
  case text.number t n   => exact (Comparison.order_eq_gt_iff.mpr <| Sum.Lex.inl_lt_inr n t).symm
  case text.text s t     =>
    have hunits : codeUnits s < codeUnits t ↔ s < t := by
      rw [codeUnits_of_ascii <| hi s rfl, codeUnits_of_ascii <| hj t rfl,
        Comparison.map_lt_map_iff toNat_strictMono]
    rw [compareIdentifier, Identifier.rank, Identifier.rank, Comparison.order_inr]
    rcases lt_trichotomy s t with h | rfl | h
    · simp [hunits, h, h.ne, Comparison.order_eq_lt_iff.mpr]
    · simp [Comparison.order_eq_eq_iff.mpr]
    · simp [hunits, h.ne', h.not_gt, Comparison.order_eq_gt_iff.mpr h]

theorem compareIdentifiers_eq (hi : ∀ t, .text t ∈ is → IsAscii t) (hj : ∀ t, .text t ∈ js → IsAscii t) :
    compareIdentifiers is js = order (is.map Identifier.rank) (js.map Identifier.rank) := by
  induction is generalizing js
  case nil =>
    cases js
    case nil  => rfl
    case cons => rfl
  case cons i is ih =>
    cases js
    case nil       => rfl
    case cons j js =>
      have hhead := compareIdentifier_eq (i := i) (j := j) (fun t h => hi t <| h ▸ List.mem_cons_self)
        (fun t h => hj t <| h ▸ List.mem_cons_self)
      have htail := ih (fun t h => hi t <| List.mem_cons_of_mem _ h) (fun t h => hj t <| List.mem_cons_of_mem _ h)
      rw [compareIdentifiers, hhead, htail, List.map_cons, List.map_cons, Comparison.order_cons]

variable {a b v : ParsedVersion}

theorem comparePrerelease_eq (ha : a.Tagged) (hb : b.Tagged) :
    comparePrerelease a.prerelease b.prerelease = order a.prereleaseRank b.prereleaseRank := by
  have hids := compareIdentifiers_eq ha.texts hb.texts
  rw [ParsedVersion.prereleaseRank, ParsedVersion.prereleaseRank]
  cases hp : a.prerelease <;> cases hq : b.prerelease
  case nil.nil   => exact (Comparison.order_eq_eq_iff.mpr rfl).symm
  case nil.cons  => exact (Comparison.order_eq_gt_iff.mpr <| WithTop.coe_lt_top _).symm
  case cons.nil  => exact (Comparison.order_eq_lt_iff.mpr <| WithTop.coe_lt_top _).symm
  case cons.cons =>
    rw [hp, hq] at hids
    simpa only [comparePrerelease, reduceCtorEq, if_false, Comparison.order_coe] using hids

theorem compareVersions_eq (ha : a.Tagged) (hb : b.Tagged) :
    compareVersions a b = order a.precedence b.precedence := by
  simp only [compareVersions, ParsedVersion.precedence, Comparison.order_toLex, comparePrerelease_eq ha hb,
    Comparison.compare_eq_order]

theorem rank_injective : Function.Injective Identifier.rank := by
  intro i j h
  cases i <;> cases j <;> simp_all [Identifier.rank]

theorem precedence_injective : Function.Injective ParsedVersion.precedence := by
  intro a b h
  have hmap := List.map_injective_iff.mpr rank_injective
  simp only [ParsedVersion.precedence, ParsedVersion.prereleaseRank, EmbeddingLike.apply_eq_iff_eq,
    Prod.mk.injEq] at h
  obtain ⟨hmajor, hminor, hpatch, hpre⟩ := h
  have hpre : a.prerelease = b.prerelease := by
    split at hpre <;> split at hpre
    case isTrue.isTrue ha hb   => exact ha.trans hb.symm
    case isTrue.isFalse        => cases hpre
    case isFalse.isTrue        => cases hpre
    case isFalse.isFalse ha hb => exact hmap <| WithTop.coe_injective hpre
  cases a
  cases b
  simp_all

end Precedence

section Parsing

variable {raw t : Text} {v : ParsedVersion}

theorem lt_128_of_isAlphanum {c : Char} (h : c.isAlphanum) : '0' ≤ c ∧ c.toNat < 128 := by
  simp only [Char.isAlphanum, Char.isAlpha, Char.isUpper, Char.isLower, Char.isDigit, Bool.or_eq_true,
    Bool.and_eq_true, decide_eq_true_eq, ge_iff_le, UInt32.le_iff_toNat_le] at h
  have hnat : c.toNat = c.val.toNat := rfl
  have hdigits : '0'.val.toNat = 48 ∧ '9'.val.toNat = 57 := by decide
  have hupper : 'A'.val.toNat = 65 ∧ 'Z'.val.toNat = 90 := by decide
  have hlower : 'a'.val.toNat = 97 ∧ 'z'.val.toNat = 122 := by decide
  rw [Char.le_def, UInt32.le_iff_toNat_le, hnat]
  omega

theorem lt_128_of_isTagChar {c : Char} (h : isTagChar c) : c.toNat < 128 := by
  simp only [isTagChar, Bool.or_eq_true, decide_eq_true_eq] at h
  obtain (h | rfl) | rfl := h
  · exact (lt_128_of_isAlphanum h).right
  · decide
  · decide

theorem eq_of_parseIdentifier (h : parseIdentifier i = some (.text t)) : t = i := by
  rw [parseIdentifier] at h
  split at h
  case isTrue  => cases h
  case isFalse =>
    split at h
    case isTrue  =>
      split at h
      case isTrue  => cases h
      case isFalse => cases h
    case isFalse =>
      cases h
      rfl

theorem mapM_of_parsePrerelease (h : i ∈ parsePrerelease raw) :
    (raw.splitOn '.').mapM parseIdentifier = some (parsePrerelease raw) := by
  rw [parsePrerelease] at h ⊢
  split at h
  case isTrue       => cases h
  case isFalse hraw =>
    rw [if_neg hraw]
    cases hids : (raw.splitOn '.').mapM parseIdentifier
    case none     => simp [hids] at h
    case some ids => rfl

theorem exists_of_mapM {α β : Type} {f : α → Option β} {as : List α} {bs : List β} (h : as.mapM f = some bs) :
    List.Forall₂ (f · = some ·) as bs := by
  induction as generalizing bs
  case nil =>
    cases h
    exact .nil
  case cons a as ih =>
    simp only [List.mapM_cons, Option.bind_eq_bind, Option.bind_eq_some_iff, Option.pure_def,
      Option.some.injEq] at h
    obtain ⟨b, hb, bs', hbs, rfl⟩ := h
    exact .cons hb <| ih hbs

theorem mem_of_parsePrerelease (h : .text t ∈ parsePrerelease raw) : t ∈ raw.splitOn '.' := by
  have hids := exists_of_mapM <| mapM_of_parsePrerelease h
  have ⟨i, hi, hparse⟩ := Lists.exists_of_forall₂ hids h
  exact eq_of_parseIdentifier hparse ▸ hi

theorem head_of_parsePrerelease {c : Char} (hc : c ≠ '.')
    (h : (parsePrerelease (c :: raw)).head? = some (.text t)) : ∃ rest, t = c :: rest := by
  have hmem : .text t ∈ parsePrerelease (c :: raw) := List.mem_of_head? h
  have hids := exists_of_mapM <| mapM_of_parsePrerelease hmem
  have ⟨piece, pieces, hsplit⟩ : ∃ piece pieces, (c :: raw).splitOn '.' = (c :: piece) :: pieces := by
    cases hrest : raw.splitOn '.'
    case nil              => exact absurd hrest <| List.splitOn_ne_nil _ _
    case cons piece pieces =>
      exact ⟨piece, pieces, by simp [List.splitOn_cons_eq_if_modifyHead, hc, hrest]⟩
  generalize parsePrerelease (c :: raw) = ids at h hids
  rw [hsplit] at hids
  cases hids
  case cons hparse _ =>
    cases h
    exact ⟨_, eq_of_parseIdentifier hparse⟩

theorem prereleasePart_spec (h : prereleasePart t = some (some raw, rest)) :
    ∃ c cs, raw = c :: cs ∧ c.isAlphanum ∧ ∀ d ∈ cs, isTagChar d := by
  rw [prereleasePart.eq_def] at h
  split at h
  case h_1 c t =>
    split at h
    case isFalse   => cases h
    case isTrue hc =>
      cases h
      exact ⟨c, _, rfl, hc, fun d hd => List.mem_takeWhile_imp hd⟩
  case h_2 => cases h

theorem tagged_of_parseVersion (h : parseVersion t = some v) : v.Tagged := by
  simp only [parseVersion, Option.bind_eq_bind, Option.bind_eq_some_iff] at h
  obtain ⟨⟨major, _⟩, _, _, _, ⟨minor, _⟩, _, _, _, ⟨patch, _⟩, _, ⟨raw, rest⟩, hraw, h⟩ := h
  split at h
  case isTrue  => cases h
  case isFalse =>
    cases h
    cases raw
    case none     => exact ⟨nofun, nofun⟩
    case some raw =>
      obtain ⟨c, cs, rfl, hc, hcs⟩ := prereleasePart_spec hraw
      have hchar := lt_128_of_isAlphanum hc
      constructor
      case texts =>
        intro t (ht : _ ∈ parsePrerelease (c :: cs)) d hd
        have hmem := Lists.mem_of_mem_splitOn (mem_of_parsePrerelease ht) hd
        cases hmem
        case head      => exact hchar.right
        case tail hmem => exact lt_128_of_isTagChar <| hcs d hmem
      case head =>
        intro t (ht : (parsePrerelease (c :: cs)).head? = _)
        have hdot : c ≠ '.' := by
          rintro rfl
          cases hc
        obtain ⟨rest, rfl⟩ := head_of_parsePrerelease hdot ht
        exact ⟨c, rest, rfl, hchar.left⟩

end Parsing

section Readings

variable {u v : ParsedVersion}

namespace ParsedVersion

def release (v : ParsedVersion) : ℕ ×ₗ ℕ ×ₗ ℕ :=
  toLex (v.major, toLex (v.minor, v.patch))

-- A prerelease whose first identifier is a number.
def StartsWithNumber (v : ParsedVersion) : Prop :=
  ∃ n, v.prerelease.head? = some (.number n)

end ParsedVersion

-- A comparator set as it is written.
inductive Simple
  | caret (p : PartialVersion)
  | tilde (p : PartialVersion)
  | bare (p : PartialVersion)
  | equal (p : PartialVersion)
  | comparison (operator : Operator) (p : PartialVersion)
  | lower (p : PartialVersion)
  | upper (p : PartialVersion)
  deriving DecidableEq

namespace PartialVersion

variable (p : PartialVersion)

-- The first version above those that start with the components of `p`.
def next : Option ParsedVersion :=
  if p.major.isNone then none
  else if p.minor.isNone then some p.incrementMajor
  else if p.patch.isNone then some p.incrementMinor
  else none

def caretNext : Option ParsedVersion :=
  if p.major.isNone then none
  else if p.major.getD 0 > 0 || p.minor.isNone then some p.incrementMajor
  else if p.minor.getD 0 > 0 || p.patch.isNone then some p.incrementMinor
  else some p.incrementPatch

def tildeNext : Option ParsedVersion :=
  if p.major.isNone then none
  else if p.minor.isNone then some p.incrementMajor
  else some p.incrementMinor

end PartialVersion

namespace Simple

-- What the user writes: the version itself, or the lower bound.
def written : Simple → List Comparator
  | caret p | tilde p => if p.major.isNone then [] else [⟨.ge, p.complete⟩]
  | bare p            => if p.major.isNone then [] else [⟨if p.hasWildcard then .ge else .eq, p.complete⟩]
  | equal p           => [⟨if p.hasWildcard then .ge else .eq, p.complete⟩]
  | comparison op p   => [⟨op, p.complete⟩]
  | lower p           => [⟨.ge, p.complete⟩]
  | upper p           => if p.hasWildcard then [] else [⟨.le, p.complete⟩]

-- The excluded upper bound.
def next : Simple → Option ParsedVersion
  | caret p                    => p.caretNext
  | tilde p                    => p.tildeNext
  | bare p | equal p | upper p => p.next
  | comparison _ _ | lower _   => none

def comparators (s : Simple) : List Comparator :=
  s.written ++ s.next.toList.map (⟨.lt, ·⟩)

end Simple

def compiledSet (simples : List Simple) : ComparatorSet :=
  let comparators := simples.flatMap Simple.comparators
  ⟨comparators = [], comparators⟩

def readToken (token : Text) : Option Simple :=
  let (operator, rawVersion) := operatorOf token
  match parsePartialVersion rawVersion with
  | none   => none
  | some p =>
    if trim rawVersion = [] && operator ≠ .bare then
      none
    else
      match operator with
      | .bare           => some <| .bare p
      | .caret          => some <| .caret p
      | .tilde          => some <| .tilde p
      | .comparison .eq => some <| .equal p
      | .comparison op  => if p.hasWildcard then none else some <| .comparison op p

def readBranch (branch : Text) : Option (List Simple) :=
  if branch = [] || isWildcard branch then
    some []
  else
    let tokens := (branch.splitOnP isWhiteSpace).filter (· ≠ [])
    let dashIndex := tokens.findIdx (· = ['-'])
    if 0 < dashIndex ∧ dashIndex < tokens.length then
      match tokens with
      | [lower, dash, upper] =>
        if dash = ['-'] then
          match parsePartialVersion lower, parsePartialVersion upper with
          | some lower, some upper => some [.lower lower, .upper upper]
          | _, _                   => none
        else
          none
      | _                    => none
    else
      tokens.mapM readToken

def readRange (input : Text) : Option (List (List Simple)) :=
  let t := trim input
  if t = [] then none else (splitBranches t).mapM fun branch => readBranch (trim branch)

theorem upperBound_eq (p : PartialVersion) :
    p.upperBound = (if p.hasWildcard then [] else [⟨.le, p.complete⟩]) ++ p.next.toList.map (⟨.lt, ·⟩) := by
  rw [PartialVersion.upperBound, PartialVersion.next, PartialVersion.hasWildcard]
  cases p.major <;> cases p.minor <;> cases p.patch <;> simp

theorem exactOrPartial_eq (p : PartialVersion) : exactOrPartial p = (Simple.equal p).comparators := by
  rw [exactOrPartial, upperBound_eq, Simple.comparators, Simple.written, Simple.next]
  split
  case isTrue       => rfl
  case isFalse hall =>
    have hnone : p.next = none := by
      simp only [PartialVersion.hasWildcard, Bool.or_eq_true, not_or] at hall
      simp [PartialVersion.next, hall]
    simp [hnone]

theorem caretRange_eq (p : PartialVersion) : p.caretRange = (Simple.caret p).comparators := by
  simp only [PartialVersion.caretRange, Simple.comparators, Simple.written, Simple.next, PartialVersion.caretNext]
  split_ifs <;> rfl

theorem tildeRange_eq (p : PartialVersion) : p.tildeRange = (Simple.tilde p).comparators := by
  simp only [PartialVersion.tildeRange, Simple.comparators, Simple.written, Simple.next, PartialVersion.tildeNext]
  split_ifs <;> rfl

theorem bare_eq (p : PartialVersion) :
    (if p.major.isNone then [] else exactOrPartial p) = (Simple.bare p).comparators := by
  rw [exactOrPartial_eq]
  simp only [Simple.comparators, Simple.written, Simple.next, PartialVersion.next]
  split_ifs <;> simp_all

theorem compileToken_eq (token : Text) : compileToken token = (readToken token).map Simple.comparators := by
  rw [compileToken, readToken]
  generalize operatorOf token = pair
  obtain ⟨operator, rawVersion⟩ := pair
  cases hp : parsePartialVersion rawVersion
  case none   => simp [hp]
  case some p =>
    by_cases hempty : trim rawVersion = [] ∧ operator ≠ .bare
    case pos => simp [hp, hempty]
    case neg =>
      simp only [hp, Bool.and_eq_true, decide_eq_true_eq, hempty, if_false]
      cases operator
      case bare          => cases hmajor : p.major <;> simp [← bare_eq, hmajor]
      case caret         => simp [caretRange_eq]
      case tilde         => simp [tildeRange_eq]
      case comparison op => cases op <;> cases p.hasWildcard <;> simp [exactOrPartial_eq] <;> rfl

theorem compileTokens_eq (tokens : List Text) :
    compileTokens tokens = (tokens.mapM readToken).map fun simples => simples.flatMap Simple.comparators := by
  induction tokens
  case nil               => rfl
  case cons token rest ih =>
    rw [compileTokens, compileToken_eq, ih, List.mapM_cons]
    cases readToken token
    case none        => rfl
    case some simple => cases rest.mapM readToken <;> rfl

theorem compiledSet_hyphen (lower upper : PartialVersion) :
    compiledSet [.lower lower, .upper upper] = ⟨false, ⟨.ge, lower.complete⟩ :: upper.upperBound⟩ := by
  simp only [compiledSet, upperBound_eq, List.flatMap_cons, List.flatMap_nil, Simple.comparators, Simple.written,
    Simple.next]
  simp

theorem compileComparatorSet_eq (branch : Text) : compileComparatorSet branch = (readBranch branch).map compiledSet := by
  rw [compileComparatorSet, readBranch]
  generalize (branch.splitOnP isWhiteSpace).filter (· ≠ []) = tokens
  split
  case isTrue  => rfl
  case isFalse =>
    simp only
    split
    case isFalse =>
      rw [compileTokens_eq, Option.map_map]
      rfl
    case isTrue  =>
      rcases tokens with _ | ⟨lowerToken, _ | ⟨dash, _ | ⟨upperToken, _ | _⟩⟩⟩
      case cons.cons.cons.nil =>
        simp only
        by_cases hdash : dash = ['-']
        case neg => simp [hdash]
        case pos =>
          cases parsePartialVersion lowerToken <;> cases parsePartialVersion upperToken
          case some.some => simp [hdash, compiledSet_hyphen]
          all_goals simp [hdash]
      all_goals rfl

theorem compileRange_eq (input : Text) : compileRange input = (readRange input).map (·.map compiledSet) := by
  have hmap (branches : List Text) : (branches.mapM fun branch => compileComparatorSet (trim branch)) =
      (branches.mapM fun branch => readBranch (trim branch)).map (·.map compiledSet) := by
    induction branches
    case nil                  => rfl
    case cons branch rest ih =>
      rw [List.mapM_cons, List.mapM_cons, compileComparatorSet_eq, ih]
      cases readBranch (trim branch)
      case none => rfl
      case some => cases rest.mapM fun branch => readBranch (trim branch) <;> rfl
  simp only [compileRange, readRange]
  split
  case isTrue  => rfl
  case isFalse => exact hmap _

-- Of the prereleases of a version, those that start with a number are below the one that starts
-- with the text `0`.
theorem prereleaseRank_lt_zero (hv : v.Tagged) (hu : u.prerelease = PartialVersion.zero) :
    v.prereleaseRank < u.prereleaseRank ↔ v.StartsWithNumber := by
  simp only [ParsedVersion.prereleaseRank, ParsedVersion.StartsWithNumber, hu, PartialVersion.zero, reduceCtorEq,
    if_false]
  cases hids : v.prerelease
  case nil         => simp
  case cons i rest =>
    rw [if_neg nofun, WithTop.coe_lt_coe, List.map_cons, List.map_cons, List.cons_lt_cons_iff]
    cases i
    case number n => simp [Identifier.rank]
    case text t   =>
      obtain ⟨c, cs, rfl, hc⟩ := hv.head t <| by rw [hids, List.head?_cons]
      simp [Identifier.rank, List.cons_lt_cons_iff, hc]

theorem tagged_of_zero (hu : u.prerelease = PartialVersion.zero) : u.Tagged := by
  constructor
  case texts => simp [hu, PartialVersion.zero, IsAscii]
  case head  => simp [hu, PartialVersion.zero]

theorem precedence_lt_iff :
    v.precedence < u.precedence ↔
      v.release < u.release ∨ v.release = u.release ∧ v.prereleaseRank < u.prereleaseRank := by
  simp only [ParsedVersion.precedence, ParsedVersion.release, Prod.Lex.toLex_lt_toLex, EmbeddingLike.apply_eq_iff_eq,
    Prod.mk.injEq]
  grind

theorem zero_of_next {s : Simple} (h : u ∈ s.next) : u.prerelease = PartialVersion.zero := by
  have hnext {p : PartialVersion} (h : u ∈ p.next) : u.prerelease = PartialVersion.zero := by
    rw [PartialVersion.next] at h
    split_ifs at h <;> cases h <;> rfl
  cases s
  case caret p =>
    rw [Simple.next, PartialVersion.caretNext] at h
    split_ifs at h <;> cases h <;> rfl
  case tilde p =>
    rw [Simple.next, PartialVersion.tildeNext] at h
    split_ifs at h <;> cases h <;> rfl
  case bare p       => exact hnext h
  case equal p      => exact hnext h
  case upper p      => exact hnext h
  case comparison p => cases h
  case lower p      => cases h

theorem matchesComparator_next {s : Simple} (hu : u ∈ s.next) (hv : v.Tagged) :
    matchesComparator ⟨.lt, u⟩ v ↔ v.release < u.release ∨ v.release = u.release ∧ v.StartsWithNumber := by
  have hzero := zero_of_next hu
  rw [matchesComparator, compareVersions_eq hv (tagged_of_zero hzero), decide_eq_true_iff, Comparison.order_eq_lt_iff,
    precedence_lt_iff, prereleaseRank_lt_zero hv hzero]

section Law

variable {simples : List Simple}

-- What a set is to hold: the versions from the written bounds on whose components are below the
-- excluded ones, of them the prereleases that a written comparator admits.
structure Means (simples : List Simple) (v : ParsedVersion) : Prop where
  bounded    : (compiledSet simples).matchesSet v →
               ∀ s ∈ simples, (∀ c ∈ s.written, matchesComparator c v) ∧ ∀ u ∈ s.next, v.release < u.release
  prerelease : (compiledSet simples).matchesSet v → v.prerelease ≠ [] →
               ∃ s ∈ simples, ∃ c ∈ s.written, c.version.prerelease ≠ [] ∧ c.version.release = v.release
  release    : v.prerelease = [] →
               (∀ s ∈ simples, (∀ c ∈ s.written, matchesComparator c v) ∧ ∀ u ∈ s.next, v.release < u.release) →
               (compiledSet simples).matchesSet v

-- A prerelease of an excluded version, with a number in front, that nothing else keeps out.
structure Leaks (simples : List Simple) (v : ParsedVersion) : Prop where
  startsWithNumber : v.StartsWithNumber
  excluded         : ∃ s ∈ simples, ∃ u ∈ s.next, v.release = u.release
  inside           : ∀ s ∈ simples,
                     (∀ c ∈ s.written, matchesComparator c v) ∧ ∀ u ∈ s.next, v.release ≤ u.release

theorem mem_comparators : c ∈ (compiledSet simples).comparators ↔
    ∃ s ∈ simples, c ∈ s.written ∨ ∃ u ∈ s.next, c = ⟨.lt, u⟩ := by
  simp only [compiledSet, Simple.comparators, List.mem_flatMap, List.mem_append, List.mem_map, Option.mem_toList,
    Option.mem_def, @eq_comm _ c]

theorem matches_iff (hv : v.Tagged) (s : Simple) :
    (∀ c ∈ s.comparators, matchesComparator c v) ↔
      (∀ c ∈ s.written, matchesComparator c v) ∧
      ∀ u ∈ s.next, v.release < u.release ∨ v.release = u.release ∧ v.StartsWithNumber := by
  simp only [Simple.comparators, List.forall_mem_append, List.forall_mem_map, Option.mem_toList]
  exact and_congr_right fun _ => forall₂_congr fun u hu => matchesComparator_next hu hv

theorem all_matches_iff (hv : v.Tagged) :
    ((compiledSet simples).comparators.all fun c => matchesComparator c v) ↔
      ∀ s ∈ simples, (∀ c ∈ s.written, matchesComparator c v) ∧
        ∀ u ∈ s.next, v.release < u.release ∨ v.release = u.release ∧ v.StartsWithNumber := by
  simp only [compiledSet, List.all_flatMap, List.all_eq_true, matches_iff hv]

theorem allowsPrerelease_iff {set : ComparatorSet} :
    set.allowsPrerelease v ↔ ∃ c ∈ set.comparators, c.version.prerelease ≠ [] ∧ c.version.release = v.release := by
  simp [ComparatorSet.allowsPrerelease, ParsedVersion.release, and_assoc]

theorem matchesSet_iff : (compiledSet simples).matchesSet v ↔
    (v.prerelease ≠ [] → (compiledSet simples).allowsPrerelease v) ∧
      (compiledSet simples).comparators.all fun c => matchesComparator c v := by
  rw [ComparatorSet.matchesSet]
  by_cases hempty : (compiledSet simples).comparators = []
  case pos =>
    have hany : (compiledSet simples).any = true := decide_eq_true hempty
    by_cases hpre : v.prerelease = []
    case pos => simp [hany, hempty, hpre]
    case neg => simp [hempty, hpre, ComparatorSet.allowsPrerelease]
  case neg =>
    have hany : (compiledSet simples).any = false := decide_eq_false hempty
    by_cases hpre : v.prerelease = []
    case pos => simp [hany, hpre]
    case neg => cases (compiledSet simples).allowsPrerelease v <;> simp [hany, hpre]

theorem matchesSet_of_leaks (hv : v.Tagged) (h : Leaks simples v) : (compiledSet simples).matchesSet v := by
  have ⟨s, hs, u, hu, hrelease⟩ := h.excluded
  rw [matchesSet_iff, all_matches_iff hv, allowsPrerelease_iff]
  constructor
  case left =>
    intro _
    have hmem : ⟨.lt, u⟩ ∈ (compiledSet simples).comparators := mem_comparators.mpr ⟨s, hs, .inr ⟨u, hu, rfl⟩⟩
    have hzero := zero_of_next hu
    exact ⟨_, hmem, by simp [hzero, PartialVersion.zero], hrelease.symm⟩
  case right =>
    intro s hs
    have ⟨hwritten, hnext⟩ := h.inside s hs
    exact ⟨hwritten, fun u hu => (hnext u hu).lt_or_eq.imp_right fun he => ⟨he, h.startsWithNumber⟩⟩

-- What a set holds and is not to hold.
theorem leaks_of_matchesSet (hv : v.Tagged) (h : (compiledSet simples).matchesSet v) (hs : s ∈ simples) (hu : u ∈ s.next)
    (hge : ¬v.release < u.release) : Leaks simples v := by
  have ⟨_, hall⟩ := matchesSet_iff.mp h
  rw [all_matches_iff hv] at hall
  have ⟨hrelease, hnumber⟩ := ((hall s hs).right u hu).resolve_left hge
  exact {
    startsWithNumber := hnumber
    excluded         := ⟨s, hs, u, hu, hrelease⟩
    inside           := fun s hs => ⟨(hall s hs).left, fun u hu => ((hall s hs).right u hu).elim le_of_lt (·.left.le)⟩
  }

theorem means_iff (hv : v.Tagged) : Means simples v ↔ ¬Leaks simples v := by
  constructor
  case mp =>
    intro h hleaks
    have ⟨s, hs, u, hu, hrelease⟩ := hleaks.excluded
    have hbounded := h.bounded (matchesSet_of_leaks hv hleaks) s hs
    exact (hbounded.right u hu).ne hrelease
  case mpr =>
    intro h
    have hbelow (hmatches : (compiledSet simples).matchesSet v) (s) (hs : s ∈ simples) (u) (hu : u ∈ s.next) :
        v.release < u.release :=
      not_not.mp fun hge => h <| leaks_of_matchesSet hv hmatches hs hu hge
    constructor
    case bounded =>
      intro hmatches s hs
      have ⟨_, hall⟩ := matchesSet_iff.mp hmatches
      rw [all_matches_iff hv] at hall
      exact ⟨(hall s hs).left, hbelow hmatches s hs⟩
    case prerelease =>
      intro hmatches hpre
      have hallows := (matchesSet_iff.mp hmatches).left hpre
      have ⟨c, hc, hne, hrelease⟩ := allowsPrerelease_iff.mp hallows
      have ⟨s, hs, hcase⟩ := mem_comparators.mp hc
      obtain hwritten | ⟨u, hu, rfl⟩ := hcase
      case inl => exact ⟨s, hs, c, hwritten, hne, hrelease⟩
      case inr => exact absurd hrelease (hbelow hmatches s hs u hu).ne'
    case release =>
      intro hpre hinside
      rw [matchesSet_iff, all_matches_iff hv]
      exact ⟨absurd hpre, fun s hs => ⟨(hinside s hs).left, fun u hu => .inl <| (hinside s hs).right u hu⟩⟩

end Law

section Highest

variable {candidates : List Text} {range candidate : Text} {best : Option (ParsedVersion × Text)}

theorem parses_of_satisfiesRange (h : satisfiesRange candidate range) : ∃ v, parseVersion candidate = some v := by
  rw [satisfiesRange] at h
  split at h
  case h_1 v _ hv _ => exact ⟨v, hv⟩
  case h_2          => cases h

-- The highest version of those gone through.
def IsHighest (candidates : List Text) (range : Text) : Option (ParsedVersion × Text) → Prop
  | none                 => ∀ c ∈ candidates, satisfiesRange c range = false
  | some (highest, best) =>
    best ∈ candidates ∧ satisfiesRange best range ∧ parseVersion best = some highest ∧
    ∀ c ∈ candidates, satisfiesRange c range → ∀ p, parseVersion c = some p → p.precedence ≤ highest.precedence

theorem better_of_not_satisfies (h : satisfiesRange candidate range = false) : better range best candidate = best := by
  rw [better]
  cases parseVersion candidate
  case none => rfl
  case some => simp [h]

theorem isHighest_better (h : IsHighest candidates range best) :
    IsHighest (candidates ++ [candidate]) range (better range best candidate) := by
  cases hsat : satisfiesRange candidate range
  case false =>
    rw [better_of_not_satisfies hsat]
    cases best
    case none =>
      intro c hc
      rcases List.mem_append.mp hc with hc | hc
      · exact h c hc
      · exact List.mem_singleton.mp hc ▸ hsat
    case some =>
      refine ⟨List.mem_append_left _ h.left, h.right.left, h.right.right.left, fun c hc hc' => ?_⟩
      rcases List.mem_append.mp hc with hc | hc
      · exact h.right.right.right c hc hc'
      · rw [List.mem_singleton.mp hc, hsat] at hc'
        cases hc'
  case true =>
    have ⟨v, hv⟩ := parses_of_satisfiesRange hsat
    have hlast : candidate ∈ candidates ++ [candidate] := List.mem_append_right _ List.mem_cons_self
    cases best
    case none =>
      have hbetter : better range none candidate = some (v, candidate) := by simp [better, hv, hsat]
      rw [hbetter]
      refine ⟨hlast, hsat, hv, fun c hc hc' p hp => ?_⟩
      rcases List.mem_append.mp hc with hc | hc
      · rw [h c hc] at hc'
        cases hc'
      · rw [List.mem_singleton.mp hc, hv] at hp
        cases hp
        exact le_refl _
    case some pair =>
      obtain ⟨highest, best⟩ := pair
      obtain ⟨hmem, hbest, hparse, hall⟩ := h
      have hcompare := compareVersions_eq (tagged_of_parseVersion hv) (tagged_of_parseVersion hparse)
      by_cases hgt : compareVersions v highest = .gt
      case pos =>
        have hbetter : better range (some (highest, best)) candidate = some (v, candidate) := by
          simp [better, hv, hsat, hgt]
        have hlt := Comparison.order_eq_gt_iff.mp <| hcompare ▸ hgt
        rw [hbetter]
        refine ⟨hlast, hsat, hv, fun c hc hc' p hp => ?_⟩
        rcases List.mem_append.mp hc with hc | hc
        · exact (hall c hc hc' p hp).trans hlt.le
        · rw [List.mem_singleton.mp hc, hv] at hp
          cases hp
          exact le_refl _
      case neg =>
        have hbetter : better range (some (highest, best)) candidate = some (highest, best) := by
          simp [better, hv, hsat, hgt]
        have hle : v.precedence ≤ highest.precedence := by
          rw [← not_lt, ← Comparison.order_eq_gt_iff, ← hcompare]
          exact hgt
        rw [hbetter]
        refine ⟨List.mem_append_left _ hmem, hbest, hparse, fun c hc hc' p hp => ?_⟩
        rcases List.mem_append.mp hc with hc | hc
        · exact hall c hc hc' p hp
        · rw [List.mem_singleton.mp hc, hv] at hp
          cases hp
          exact hle

theorem isHighest_fold (candidates : List Text) (range : Text) :
    IsHighest candidates range (candidates.foldl (better range) none) := by
  induction candidates using List.reverseRecOn
  case nil                            => exact nofun
  case append_singleton front last ih =>
    rw [List.foldl_append]
    exact isHighest_better ih

theorem maxSatisfying_isHighest (candidates : List Text) (range : Text) :
    ∃ pair, IsHighest candidates range pair ∧ maxSatisfying candidates range = pair.map (·.snd) :=
  ⟨_, isHighest_fold candidates range, rfl⟩

end Highest

section Ranges

variable {candidates : List Text} {range versionText : Text} {branches : List (List Simple)} {v : ParsedVersion}

-- Versions are in the order of their precedence, a range holds what one of its branches is to hold,
-- and the highest of some versions is the highest of those in the range.
structure RangesDenote (candidates : List Text) (range versionText : Text) (branches : List (List Simple))
    (v : ParsedVersion) : Prop where
  order   : ∀ s t a b, parseVersion s = some a → parseVersion t = some b →
            (compareVersions a b = .lt ↔ a.precedence < b.precedence) ∧
            (compareVersions a b = .gt ↔ b.precedence < a.precedence) ∧ (compareVersions a b = .eq ↔ a = b)
  union   : satisfiesRange versionText range ↔ ∃ simples ∈ branches, (compiledSet simples).matchesSet v
  means   : ∀ simples ∈ branches, Means simples v
  highest : ∃ pair, IsHighest candidates range pair ∧ maxSatisfying candidates range = pair.map (·.snd)

theorem ranges_denote_iff (hread : readRange range = some branches) (hv : parseVersion versionText = some v) :
    RangesDenote candidates range versionText branches v ↔ ∀ simples ∈ branches, ¬Leaks simples v := by
  have htagged := tagged_of_parseVersion hv
  constructor
  case mp  => exact fun h simples hs => (means_iff htagged).mp <| h.means simples hs
  case mpr =>
    intro h
    constructor
    case order =>
      intro s t a b ha hb
      rw [compareVersions_eq (tagged_of_parseVersion ha) (tagged_of_parseVersion hb), Comparison.order_eq_lt_iff,
        Comparison.order_eq_gt_iff, Comparison.order_eq_eq_iff, precedence_injective.eq_iff]
      exact ⟨.rfl, .rfl, .rfl⟩
    case union   => simp [satisfiesRange, compileRange_eq, hread, hv]
    case means   => exact fun simples hs => (means_iff htagged).mpr <| h simples hs
    case highest => exact maxSatisfying_isHighest candidates range

theorem ranges_denote_caret : RangesDenote ["1.2.3".toList] "^1.0.0".toList "1.2.3".toList
    [[.caret ⟨some 1, some 0, some 0, []⟩]] ⟨1, 2, 3, []⟩ := by
  apply (ranges_denote_iff (by decide +kernel) (by decide +kernel)).mpr
  intro simples _ h
  have ⟨n, hn⟩ := h.startsWithNumber
  cases hn

-- `2.0.0-1` is in `^1.0.0`: the bound `2.0.0-0` has the text `0`, and every number is below it.
theorem prerelease_of_next_major :
    satisfiesRange "2.0.0-1".toList "^1.0.0".toList ∧
      ¬RangesDenote [] "^1.0.0".toList "2.0.0-1".toList [[.caret ⟨some 1, some 0, some 0, []⟩]]
        ⟨2, 0, 0, [.number 1]⟩ := by
  constructor
  case left  => decide +kernel
  case right =>
    intro h
    have hmeans := h.means _ List.mem_cons_self
    have hbounded := hmeans.bounded (by decide +kernel) _ List.mem_cons_self
    exact absurd (hbounded.right ⟨2, 0, 0, PartialVersion.zero⟩ rfl) (lt_irrefl _)

end Ranges

end Readings

end Dependencies
