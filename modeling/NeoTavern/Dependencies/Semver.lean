import NeoTavern.ModuleMap.Builder

namespace Dependencies

open Database (isWhiteSpace trim)
open ModuleMap (Text codeUnits)

inductive Identifier
  | number (n : Nat)
  | text (t : Text)
  deriving DecidableEq

structure ParsedVersion where
  major      : Nat
  minor      : Nat
  patch      : Nat
  prerelease : List Identifier
  deriving DecidableEq

structure PartialVersion where
  major      : Option Nat
  minor      : Option Nat
  patch      : Option Nat
  prerelease : List Identifier
  deriving DecidableEq

inductive Operator
  | lt
  | le
  | eq
  | ge
  | gt
  deriving DecidableEq

structure Comparator where
  operator : Operator
  version  : ParsedVersion
  deriving DecidableEq

structure ComparatorSet where
  any         : Bool
  comparators : List Comparator
  deriving DecidableEq

section Versions

def maxSafeComponent : Nat :=
  9007199254740991

def valueOf (digits : Text) : Nat :=
  digits.foldl (fun n c => 10 * n + (c.toNat - 0x30)) 0

-- Whether `^(0|[1-9]\d*)$` matches.
def isComponent (t : Text) : Bool :=
  t ≠ [] && t.all Char.isDigit && (t = ['0'] || t.head? ≠ some '0')

-- A component of a version, and what follows it.
def component (t : Text) : Option (Nat × Text) :=
  let digits := t.takeWhile Char.isDigit
  if isComponent digits && valueOf digits ≤ maxSafeComponent then
    some (valueOf digits, t.drop digits.length)
  else
    none

def afterDot : Text → Option Text
  | '.' :: t => some t
  | _        => none

-- `none` for an identifier that is not valid.
def parseIdentifier (identifier : Text) : Option Identifier :=
  if identifier = [] then
    none
  else if identifier.all Char.isDigit then
    if isComponent identifier && valueOf identifier ≤ maxSafeComponent then
      some <| .number <| valueOf identifier
    else
      none
  else
    some <| .text identifier

-- Nothing, where one of the identifiers is not valid.
def parsePrerelease (raw : Text) : List Identifier :=
  if raw = [] then [] else ((raw.splitOn '.').mapM parseIdentifier).getD []

def isTagChar (c : Char) : Bool :=
  c.isAlphanum || c = '.' || c = '-'

-- `(?:-([0-9A-Za-z][0-9A-Za-z.-]*))?`
def prereleasePart : Text → Option (Option Text × Text)
  | '-' :: c :: t =>
    if c.isAlphanum then
      some (some <| c :: t.takeWhile isTagChar, t.dropWhile isTagChar)
    else
      none
  | t             => some (none, t)

-- `(?:\+[0-9A-Za-z.-]+)?$`
def isBuildPart : Text → Bool
  | []       => true
  | '+' :: t => t ≠ [] && t.all isTagChar
  | _        => false

def parseVersion (input : Text) : Option ParsedVersion := do
  let t := trim input
  let t := if t.head? = some 'v' then t.drop 1 else t
  let (major, t) ← component t
  let t ← afterDot t
  let (minor, t) ← component t
  let t ← afterDot t
  let (patch, t) ← component t
  let (raw, t) ← prereleasePart t
  let prerelease := parsePrerelease (raw.getD [])
  if !isBuildPart t || raw.isSome && prerelease = [] then
    none
  else
    some ⟨major, minor, patch, prerelease⟩

def compareIdentifier : Identifier → Identifier → Ordering
  | .number m, .number n => compare m n
  | .number _, .text _   => .lt
  | .text _, .number _   => .gt
  | .text s, .text t     => if s = t then .eq else if codeUnits s < codeUnits t then .lt else .gt

def compareIdentifiers : List Identifier → List Identifier → Ordering
  | [], []           => .eq
  | [], _ :: _       => .lt
  | _ :: _, []       => .gt
  | i :: is, j :: js => (compareIdentifier i j).then (compareIdentifiers is js)

-- A release outranks any of its prereleases.
def comparePrerelease : List Identifier → List Identifier → Ordering
  | [], []     => .eq
  | [], _ :: _ => .gt
  | _ :: _, [] => .lt
  | is, js     => compareIdentifiers is js

def compareVersions (a b : ParsedVersion) : Ordering :=
  (compare a.major b.major).then <| (compare a.minor b.minor).then <| (compare a.patch b.patch).then <|
    comparePrerelease a.prerelease b.prerelease

end Versions

section Ranges

def isWildcard (t : Text) : Bool :=
  t = ['x'] || t = ['X'] || t = ['*']

-- A component of a range. A wildcard is `some none`.
def partialComponent (t : Text) : Option (Option Nat) :=
  if isWildcard t then
    some none
  else if isComponent t && valueOf t ≤ maxSafeComponent then
    some <| some <| valueOf t
  else
    none

-- Whether a number comes after a wildcard.
def mixed : List (Option Nat) → Bool
  | []               => false
  | none :: values   => values.any Option.isSome || mixed values
  | some _ :: values => mixed values

def splitPrerelease (t : Text) : Text × Option Text :=
  let core := t.takeWhile (· ≠ '-')
  if core.length < t.length then (core, some <| t.drop (core.length + 1)) else (t, none)

def parsePartialVersion (input : Text) : Option PartialVersion :=
  let t := trim input
  let t := if t.head? = some 'v' || t.head? = some 'V' then t.drop 1 else t
  if t = [] || isWildcard t then
    some ⟨none, none, none, []⟩
  else
    let (core, raw) := splitPrerelease t
    let components := core.splitOn '.'
    if components.length > 3 then
      none
    else
      match components.mapM partialComponent with
      | none        => none
      | some values =>
        let prerelease := parsePrerelease (raw.getD [])
        if mixed values || raw.isSome && prerelease = [] then
          none
        else
          some ⟨(values[0]?).join, (values[1]?).join, (values[2]?).join, prerelease⟩

namespace PartialVersion

variable (p : PartialVersion)

def complete : ParsedVersion :=
  ⟨p.major.getD 0, p.minor.getD 0, p.patch.getD 0, p.prerelease⟩

def zero : List Identifier :=
  [.text ['0']]

def incrementMajor : ParsedVersion :=
  ⟨p.major.getD 0 + 1, 0, 0, zero⟩

def incrementMinor : ParsedVersion :=
  ⟨p.major.getD 0, p.minor.getD 0 + 1, 0, zero⟩

def incrementPatch : ParsedVersion :=
  ⟨p.major.getD 0, p.minor.getD 0, p.patch.getD 0 + 1, zero⟩

def hasWildcard : Bool :=
  p.major.isNone || p.minor.isNone || p.patch.isNone

def upperBound : List Comparator :=
  if p.major.isNone then []
  else if p.minor.isNone then [⟨.lt, p.incrementMajor⟩]
  else if p.patch.isNone then [⟨.lt, p.incrementMinor⟩]
  else [⟨.le, p.complete⟩]

def caretRange : List Comparator :=
  if p.major.isNone then []
  else if p.major.getD 0 > 0 || p.minor.isNone then [⟨.ge, p.complete⟩, ⟨.lt, p.incrementMajor⟩]
  else if p.minor.getD 0 > 0 || p.patch.isNone then [⟨.ge, p.complete⟩, ⟨.lt, p.incrementMinor⟩]
  else [⟨.ge, p.complete⟩, ⟨.lt, p.incrementPatch⟩]

def tildeRange : List Comparator :=
  if p.major.isNone then []
  else if p.minor.isNone then [⟨.ge, p.complete⟩, ⟨.lt, p.incrementMajor⟩]
  else [⟨.ge, p.complete⟩, ⟨.lt, p.incrementMinor⟩]

end PartialVersion

inductive Prefix
  | bare
  | comparison (operator : Operator)
  | caret
  | tilde
  deriving DecidableEq

-- The operator of a token, and the version that it applies to.
def operatorOf : Text → Prefix × Text
  | '>' :: '=' :: t => (.comparison .ge, t)
  | '<' :: '=' :: t => (.comparison .le, t)
  | '>' :: t        => (.comparison .gt, t)
  | '<' :: t        => (.comparison .lt, t)
  | '=' :: t        => (.comparison .eq, t)
  | '^' :: t        => (.caret, t)
  | '~' :: t        => (.tilde, t)
  | t               => (.bare, t)

def exactOrPartial (p : PartialVersion) : List Comparator :=
  if p.hasWildcard then ⟨.ge, p.complete⟩ :: p.upperBound else [⟨.eq, p.complete⟩]

def compileToken (token : Text) : Option (List Comparator) :=
  let (operator, rawVersion) := operatorOf token
  match parsePartialVersion rawVersion with
  | none   => none
  | some p =>
    if trim rawVersion = [] && operator ≠ .bare then
      none
    else
      match operator with
      | .bare           => if p.major.isNone then some [] else some <| exactOrPartial p
      | .caret          => some p.caretRange
      | .tilde          => some p.tildeRange
      | .comparison .eq => some <| exactOrPartial p
      | .comparison op  => if p.hasWildcard then none else some [⟨op, p.complete⟩]

def compileTokens : List Text → Option (List Comparator)
  | []              => some []
  | token :: tokens => do
    let compiled ← compileToken token
    let comparators ← compileTokens tokens
    return compiled ++ comparators

def compileComparatorSet (branch : Text) : Option ComparatorSet :=
  if branch = [] || isWildcard branch then
    some ⟨true, []⟩
  else
    let tokens := (branch.splitOnP isWhiteSpace).filter (· ≠ [])
    let dashIndex := tokens.findIdx (· = ['-'])
    if 0 < dashIndex ∧ dashIndex < tokens.length then
      match tokens with
      | [lower, dash, upper] =>
        if dash = ['-'] then
          match parsePartialVersion lower, parsePartialVersion upper with
          | some lower, some upper => some ⟨false, ⟨.ge, lower.complete⟩ :: upper.upperBound⟩
          | _, _                   => none
        else
          none
      | _                    => none
    else
      (compileTokens tokens).map fun comparators => ⟨comparators = [], comparators⟩

-- `split('||')`
def splitBranches : Text → List Text
  | []              => [[]]
  | '|' :: '|' :: t => [] :: splitBranches t
  | c :: t          =>
    match splitBranches t with
    | branch :: branches => (c :: branch) :: branches
    | []                 => [[c]]

def compileRange (input : Text) : Option (List ComparatorSet) :=
  let t := trim input
  if t = [] then none else (splitBranches t).mapM fun branch => compileComparatorSet (trim branch)

def matchesComparator (c : Comparator) (version : ParsedVersion) : Bool :=
  match c.operator, compareVersions version c.version with
  | .eq, o => o = .eq
  | .gt, o => o = .gt
  | .ge, o => o ≠ .lt
  | .lt, o => o = .lt
  | .le, o => o ≠ .gt

namespace ComparatorSet

variable (set : ComparatorSet) (version : ParsedVersion)

def allowsPrerelease : Bool :=
  set.comparators.any fun c =>
    c.version.prerelease ≠ [] && c.version.major = version.major && c.version.minor = version.minor &&
      c.version.patch = version.patch

def matchesSet : Bool :=
  if version.prerelease ≠ [] && !set.allowsPrerelease version then false
  else if set.any then version.prerelease = []
  else set.comparators.all fun c => matchesComparator c version

end ComparatorSet

def satisfiesRange (versionInput rangeInput : Text) : Bool :=
  match parseVersion versionInput, compileRange rangeInput with
  | some version, some sets => sets.any fun set => set.matchesSet version
  | _, _                    => false

-- One more candidate for the highest version.
def better (rangeInput : Text) (best : Option (ParsedVersion × Text)) (candidate : Text) :
    Option (ParsedVersion × Text) :=
  match parseVersion candidate with
  | none        => best
  | some parsed =>
    if !satisfiesRange candidate rangeInput then
      best
    else
      match best with
      | none              => some (parsed, candidate)
      | some (highest, _) =>
        if compareVersions parsed highest = .gt then some (parsed, candidate) else best

def maxSatisfying (candidates : List Text) (rangeInput : Text) : Option Text :=
  (candidates.foldl (better rangeInput) none).map (·.snd)

def isValidRange (rangeInput : Text) : Bool :=
  (compileRange rangeInput).isSome

end Ranges

section MaxSatisfying

variable {candidates : List Text} {range version : Text} {best : Option (ParsedVersion × Text)}

theorem better_satisfies {candidate : Text} {p : ParsedVersion × Text}
    (h : better range best candidate = some p) :
    best = some p ∨ p.snd = candidate ∧ satisfiesRange candidate range := by
  rw [better] at h
  split at h
  case h_1 => exact .inl h
  case h_2 =>
    split at h
    case isTrue       => exact .inl h
    case isFalse hsat =>
      have hsat : satisfiesRange candidate range = true := by simpa using hsat
      split at h
      case h_1 =>
        cases h
        exact .inr ⟨rfl, hsat⟩
      case h_2 =>
        split at h
        case isTrue =>
          cases h
          exact .inr ⟨rfl, hsat⟩
        case isFalse => exact .inl h

-- The highest version is one of the candidates, and in the range.
theorem maxSatisfying_spec (h : maxSatisfying candidates range = some version) :
    version ∈ candidates ∧ satisfiesRange version range := by
  have hfold (cs : List Text) (best : Option (ParsedVersion × Text)) (p : ParsedVersion × Text)
      (hp : cs.foldl (better range) best = some p) :
      best = some p ∨ p.snd ∈ cs ∧ satisfiesRange p.snd range := by
    induction cs generalizing best
    case nil          => exact .inl hp
    case cons c cs ih =>
      rcases ih _ hp with hb | ⟨hmem, hsat⟩
      · rcases better_satisfies hb with hb | ⟨heq, hsat⟩
        · exact .inl hb
        · exact .inr ⟨heq ▸ List.mem_cons_self, heq ▸ hsat⟩
      · exact .inr ⟨List.mem_cons_of_mem _ hmem, hsat⟩
  have ⟨p, hp, hv⟩ := Option.map_eq_some_iff.mp h
  subst hv
  exact (hfold candidates none p hp).resolve_left nofun

end MaxSatisfying

example : maxSatisfying ["1.2.0".toList, "1.10.1".toList, "2.0.0-rc.1".toList] "^1.1".toList =
    some "1.10.1".toList := by decide +kernel

end Dependencies
