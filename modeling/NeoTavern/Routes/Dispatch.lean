import Mathlib
import NeoTavern.Lib.Lists
import NeoTavern.Lib.RegExp

-- The paths of the routes that plugins register.
namespace Routes

inductive RouteError
  | permissionDenied
  | argument (field : String)
  | pathInvalid
  | patternInvalid
  | paramInvalid (name : CodeUnits)
  | methodInvalid
  | conflict (path : CodeUnits)
  | limitExceeded (limit : ℕ)

section Code

abbrev text (s : String) : CodeUnits :=
  .ofString s

-- `[a-z]` and `[a-z0-9_]` where the case is ignored, which includes U+017F and U+212A.
def isNameStart (u : UInt16) : Bool :=
  0x61 ≤ u && u ≤ 0x7a || 0x41 ≤ u && u ≤ 0x5a || u = 0x17f || u = 0x212a

def isNameUnit (u : UInt16) : Bool :=
  isNameStart u || 0x30 ≤ u && u ≤ 0x39 || u = 0x5f

def isName : CodeUnits → Bool
  | []     => false
  | u :: t => isNameStart u && t.all isNameUnit

-- `path.split('/').slice(1)`
def segments (path : CodeUnits) : List CodeUnits :=
  (path.splitOn 0x2f).tail

def isParam (segment : CodeUnits) : Bool :=
  segment.head? = some 0x3a

def validateRoutePath (path : CodeUnits) : Except RouteError CodeUnits :=
  if path.length = 0 || path.length > 500 || path.head? ≠ some 0x2f || path.contains 0x3f || path.contains 0x23 ||
      path.contains 0x5c || (path.splitOn 0x2f).any (· = text "..") then
    .error .pathInvalid
  else
    .ok path

-- `path.replace(/:[a-z][a-z0-9_]*/giu, ':')`. `inside` tells whether the unit before is of such a name.
def patternKey : (inside : Bool) → CodeUnits → CodeUnits
  | _, []          => []
  | inside, u :: t =>
    if inside && isNameUnit u then patternKey true t else u :: patternKey (u = 0x3a && t.head?.any isNameStart) t

structure Compiled where
  patternKey  : CodeUnits
  matcher     : List RegExp.Atom
  paramNames  : List CodeUnits
  specificity : ℕ

-- The segments with the names and the specificity before each.
def compileSegments : List CodeUnits → List CodeUnits → ℕ → Except RouteError (List CodeUnits × List CodeUnits × ℕ)
  | [], paramNames, specificity                  => .ok ([], paramNames, specificity)
  | segment :: segments, paramNames, specificity =>
    if isParam segment then
      let name := segment.tail
      if !isName name || paramNames.contains name then
        .error (.paramInvalid name)
      else do
        let (patterns, rest) ← compileSegments segments (paramNames ++ [name]) (specificity + 1)
        return (text "([^/]+)" :: patterns, rest)
    else do
      let (patterns, rest) ← compileSegments segments paramNames (specificity + 2)
      return (RegExp.escape segment :: patterns, rest)

-- A source that is no regular expression gives no matcher.
def compileRoutePath (path : CodeUnits) : Except RouteError Compiled := do
  let (patterns, paramNames, specificity) ← compileSegments (segments path) [] 0
  match RegExp.read (text "^/" ++ (text "/").intercalate patterns ++ text "$") with
  | none         => .error .patternInvalid
  | some matcher =>
    return {
      patternKey  := patternKey false path
      matcher     := matcher
      paramNames  := paramNames
      specificity := specificity
    }

end Code

section Segments

theorem isParam_iff {segment : CodeUnits} : isParam segment ↔ ∃ name, segment = 0x3a :: name := by
  cases segment <;> simp [isParam]

theorem flatMap_eq_intercalate (segments : List CodeUnits) :
    segments.flatMap (0x2f :: ·) = ([0x2f] : CodeUnits).intercalate ([] :: segments) := by
  induction segments
  case nil => rfl
  case cons segment segments hi =>
    cases segments
    case nil => simp
    case cons => simpa using hi

-- A path that starts with a slash is its segments, with a slash before each.
theorem flatMap_segments {path : CodeUnits} (h : path.head? = some 0x2f) :
    (segments path).flatMap (0x2f :: ·) = path := by
  cases path
  case nil      => simp at h
  case cons u t =>
    obtain rfl : u = 0x2f := by simpa using h
    have hsplit : (0x2f :: t : CodeUnits).splitOn 0x2f = [] :: t.splitOn 0x2f := by
      simp [List.splitOn_cons_eq_if_modifyHead]
    have hjoin : ([0x2f] : CodeUnits).intercalate ((0x2f :: t : CodeUnits).splitOn 0x2f) = 0x2f :: t :=
      List.intercalate_splitOn 0x2f
    simp only [segments, hsplit, List.tail_cons, flatMap_eq_intercalate] at hjoin ⊢
    exact hjoin

theorem segments_flatMap {segs : List CodeUnits} (hs : ∀ segment ∈ segs, 0x2f ∉ segment) :
    segments (segs.flatMap (0x2f :: ·)) = segs := by
  rw [segments, flatMap_eq_intercalate, List.splitOn_intercalate _ (by simpa using hs) (by simp)]
  rfl

example : segments (text "/a/:b") = [text "a", text ":b"] := by
  decide +kernel

theorem not_mem_of_mem_segments {path segment : CodeUnits} (h : segment ∈ segments path) : 0x2f ∉ segment :=
  Lists.not_mem_of_mem_splitOn <| List.mem_of_mem_tail h

theorem segments_ne_nil {path : CodeUnits} (h : path.head? = some 0x2f) : segments path ≠ [] := by
  intro hs
  have := flatMap_segments h
  simp only [hs, List.flatMap_nil] at this
  simp [← this] at h

theorem flatMap_slash (segs : List CodeUnits) :
    segs.flatMap (0x2f :: ·) = [] ∨ ∃ t, segs.flatMap (0x2f :: ·) = (0x2f : UInt16) :: t := by
  cases segs <;> simp

end Segments

section Keys

-- A path up to the names of its parameters.
def segmentShape (segment : CodeUnits) : Option CodeUnits :=
  if isParam segment then none else some segment

def shape (path : CodeUnits) : List (Option CodeUnits) :=
  (segments path).map segmentShape

theorem isNameUnit_slash : isNameUnit 0x2f = false := by
  decide

theorem patternKey_slash (inside : Bool) (s t : CodeUnits) :
    patternKey inside (s ++ 0x2f :: t) = patternKey inside s ++ 0x2f :: patternKey false t := by
  induction s generalizing inside
  case nil => simp [patternKey, isNameUnit_slash]
  case cons u s hi =>
    have hhead : (s ++ 0x2f :: t).head?.any isNameStart = s.head?.any isNameStart := by
      cases s
      case nil  => simp; decide
      case cons => rfl
    simp only [List.cons_append, patternKey, hhead, hi]
    split <;> rfl

theorem patternKey_flatMap (segs : List CodeUnits) (t : CodeUnits) :
    patternKey false (t ++ segs.flatMap (0x2f :: ·)) =
      patternKey false t ++ (segs.map (patternKey false)).flatMap (0x2f :: ·) := by
  induction segs generalizing t
  case nil                  => simp
  case cons segment segs hi => simp [patternKey_slash, hi]

theorem patternKey_name {t : CodeUnits} (h : t.all isNameUnit) : patternKey true t = [] := by
  induction t
  case nil         => rfl
  case cons u t hi =>
    simp only [List.all_cons, Bool.and_eq_true] at h
    simp [patternKey, h.1, hi h.2]

theorem patternKey_param {segment : CodeUnits} (hp : isParam segment) (hn : isName segment.tail) :
    patternKey false segment = [0x3a] := by
  obtain ⟨name, rfl⟩ := isParam_iff.mp hp
  cases name
  case nil         => simp [isName] at hn
  case cons u name =>
    simp only [List.tail_cons, isName, Bool.and_eq_true] at hn
    have hall : (u :: name).all isNameUnit := by simp [isNameUnit, hn.1, hn.2]
    simp [patternKey, hn.1, ← patternKey_name hall]

theorem patternKey_eq_of_shape_eq {path path' : CodeUnits} (hs : shape path = shape path')
    (h : path.head? = some 0x2f) (h' : path'.head? = some 0x2f)
    (hn : ∀ segment ∈ segments path, isParam segment → isName segment.tail)
    (hn' : ∀ segment ∈ segments path', isParam segment → isName segment.tail) :
    patternKey false path = patternKey false path' := by
  -- Of the shape alone, as its parameters have names.
  have hkey {path : CodeUnits} (h : path.head? = some 0x2f)
      (hn : ∀ segment ∈ segments path, isParam segment → isName segment.tail) :
      patternKey false path = ((shape path).map fun s => s.elim [0x3a] (patternKey false)).flatMap (0x2f :: ·) := by
    have hall := patternKey_flatMap (segments path) []
    rw [List.nil_append, flatMap_segments h] at hall
    have hmap : (segments path).map (patternKey false) =
        (shape path).map fun s => s.elim [0x3a] (patternKey false) := by
      simp only [shape, List.map_map]
      refine List.map_congr_left fun segment hm => ?_
      by_cases hp : isParam segment
      case pos => simp [segmentShape, hp, patternKey_param hp (hn segment hm hp)]
      case neg => simp [segmentShape, hp]
    rw [hall, hmap]
    rfl
  rw [hkey h hn, hkey h' hn', hs]

example : patternKey false (text "/a/:b/c") = text "/a/:/c" := by
  decide +kernel

end Keys

section Compile

variable {segs names patterns names' : List CodeUnits} {n n' : ℕ}

def paramNames (segs : List CodeUnits) : List CodeUnits :=
  (segs.filter isParam).map List.tail

def specificity (segs : List CodeUnits) : ℕ :=
  (segs.map fun segment => if isParam segment then 1 else 2).sum

def patternSegment (segment : CodeUnits) : CodeUnits :=
  if isParam segment then text "([^/]+)" else RegExp.escape segment

structure Compiles (segs names patterns names' : List CodeUnits) (n n' : ℕ) : Prop where
  sources  : patterns = segs.map patternSegment
  params   : names' = names ++ paramNames segs
  distinct : names.Nodup → names'.Nodup
  valid    : ∀ segment ∈ segs, isParam segment → isName segment.tail
  rank     : n' = n + specificity segs

theorem compileSegments_param {segment : CodeUnits} (hp : isParam segment)
    (h : compileSegments (segment :: segs) names n = .ok (patterns, names', n')) :
    isName segment.tail ∧ segment.tail ∉ names ∧ ∃ rest, patterns = text "([^/]+)" :: rest ∧
      compileSegments segs (names ++ [segment.tail]) (n + 1) = .ok (rest, names', n') := by
  simp only [compileSegments, hp, if_true] at h
  split at h
  case isTrue        => cases h
  case isFalse hname =>
    simp only [Bool.or_eq_true, not_or, List.contains_iff_mem, Bool.not_eq_true', Bool.not_eq_false] at hname
    cases hrest : compileSegments segs (names ++ [segment.tail]) (n + 1)
    case error   => simp [hrest, bind, Except.bind] at h
    case ok rest =>
      obtain ⟨rest, names'', n''⟩ := rest
      simp only [hrest, bind, Except.bind, pure, Except.pure] at h
      cases h
      exact ⟨hname.1, hname.2, rest, rfl, rfl⟩

theorem compileSegments_static {segment : CodeUnits} (hp : ¬isParam segment)
    (h : compileSegments (segment :: segs) names n = .ok (patterns, names', n')) :
    ∃ rest, patterns = RegExp.escape segment :: rest ∧ compileSegments segs names (n + 2) = .ok (rest, names', n') := by
  simp only [compileSegments, hp] at h
  cases hrest : compileSegments segs names (n + 2)
  case error   => simp [hrest, bind, Except.bind] at h
  case ok rest =>
    obtain ⟨rest, names'', n''⟩ := rest
    simp only [hrest, bind, Except.bind, pure, Except.pure] at h
    cases h
    exact ⟨rest, rfl, rfl⟩

theorem compileSegments_ok (h : compileSegments segs names n = .ok (patterns, names', n')) :
    Compiles segs names patterns names' n n' := by
  induction segs generalizing names patterns n
  case nil =>
    cases h
    constructor <;> simp [paramNames, specificity]
  case cons segment segs hi =>
    by_cases hp : isParam segment
    case pos =>
      obtain ⟨hname, hnew, rest, rfl, hrest⟩ := compileSegments_param hp h
      have hr := hi hrest
      constructor
      case sources  => simp [hr.sources, patternSegment, hp]
      case params   => simp [hr.params, paramNames, hp]
      case distinct => exact fun hn => hr.distinct <| List.nodup_append.mpr ⟨hn, by simp, by aesop⟩
      case valid    => simpa [hname] using hr.valid
      case rank     => simp [hr.rank, specificity, hp, Nat.add_assoc]
    case neg =>
      obtain ⟨rest, rfl, hrest⟩ := compileSegments_static hp h
      have hr := hi hrest
      constructor
      case sources  => simp [hr.sources, patternSegment, hp]
      case params   => simp [hr.params, paramNames, hp]
      case distinct => exact hr.distinct
      case valid    => simpa [hp] using hr.valid
      case rank     => simp [hr.rank, specificity, hp, Nat.add_assoc]

def segmentAtoms (segment : CodeUnits) : List RegExp.Atom :=
  if isParam segment then [.group 0x2f] else segment.map .unit

def pathAtoms (segs : List CodeUnits) : List RegExp.Atom :=
  segs.flatMap fun segment => .unit 0x2f :: segmentAtoms segment

theorem read_patternSegment (segment t : CodeUnits) :
    RegExp.read (patternSegment segment ++ t) = (RegExp.read t).map (segmentAtoms segment ++ ·) := by
  have hgroup : text "([^/]+)" = RegExp.groupSource 0x2f := by decide
  by_cases hp : isParam segment
  case pos => simp [patternSegment, segmentAtoms, hp, hgroup, RegExp.read_group (x := 0x2f) (by decide)]
  case neg => simp [patternSegment, segmentAtoms, hp, RegExp.read_escape]

theorem read_segments (segs : List CodeUnits) (t : CodeUnits) :
    RegExp.read ((segs.map patternSegment).flatMap (0x2f :: ·) ++ t) = (RegExp.read t).map (pathAtoms segs ++ ·) := by
  induction segs
  case nil => simp [pathAtoms]
  case cons segment segs hi =>
    simp only [List.map_cons, List.flatMap_cons, List.cons_append, List.append_assoc]
    rw [RegExp.read_unit (by decide), read_patternSegment, hi]
    simp [pathAtoms, Function.comp_def]

structure Accepted (path : CodeUnits) (c : Compiled) : Prop where
  slash    : path.head? = some 0x2f
  key      : c.patternKey = patternKey false path
  matcher  : c.matcher = .start :: pathAtoms (segments path) ++ [.stop]
  params   : c.paramNames = paramNames (segments path)
  distinct : c.paramNames.Nodup
  rank     : c.specificity = specificity (segments path)
  valid    : ∀ segment ∈ segments path, isParam segment → isName segment.tail

-- The source of a path is one that can be read.
theorem compileRoutePath_ok {path : CodeUnits} {c : Compiled} (hpath : path.head? = some 0x2f)
    (h : compileRoutePath path = .ok c) : Accepted path c := by
  simp only [compileRoutePath] at h
  cases hc : compileSegments (segments path) [] 0
  case error => simp [hc, bind, Except.bind] at h
  case ok result =>
    obtain ⟨patterns, names, n⟩ := result
    have hr := compileSegments_ok hc
    have hread : RegExp.read (text "^/" ++ (text "/").intercalate patterns ++ text "$") =
        some (.start :: pathAtoms (segments path) ++ [.stop]) := by
      have hjoin := flatMap_eq_intercalate patterns
      rw [List.intercalate_cons_of_ne_nil (by simpa [hr.sources] using segments_ne_nil hpath)] at hjoin
      have hsource : text "^/" ++ (text "/").intercalate patterns ++ text "$" =
          0x5e :: (patterns.flatMap (0x2f :: ·) ++ [0x24]) := by
        rw [hjoin]
        rfl
      have hstop : RegExp.read [0x24] = some [.stop] := by decide
      rw [hsource, RegExp.read_start, hr.sources, read_segments, hstop]
      rfl
    simp only [hc, bind, Except.bind, hread, pure, Except.pure, Except.ok.injEq] at h
    subst h
    constructor
    case slash    => exact hpath
    case key      => rfl
    case matcher  => rfl
    case params   => simpa using hr.params
    case distinct => exact hr.distinct List.nodup_nil
    case rank     => simpa using hr.rank
    case valid    => exact hr.valid

example : paramNames [text "a", text ":b"] = [text "b"] := by
  decide +kernel

end Compile

section Matching

-- A parameter takes one segment that is not empty.
def Fits (segment piece : CodeUnits) : Prop :=
  if isParam segment then piece ≠ [] else segment = piece

def Matches (pattern path : CodeUnits) : Prop :=
  path.head? = some 0x2f ∧ List.Forall₂ Fits (segments pattern) (segments path)

def captures : List CodeUnits → List CodeUnits → Option (List CodeUnits)
  | [], []                       => some []
  | segment :: segs, piece :: ps =>
    if isParam segment then
      if piece = [] then none else (captures segs ps).map (piece :: ·)
    else
      if segment = piece then captures segs ps else none
  | _, _                         => none

theorem separated_atoms (segs : List CodeUnits) : RegExp.Separated 0x2f (pathAtoms segs ++ [.stop]) := by
  intro u t hu
  cases segs
  case nil  => rfl
  case cons => simp [pathAtoms, RegExp.matchAt, hu]

theorem matchAt_segments {segs pieces : List CodeUnits} (hs : ∀ segment ∈ segs, 0x2f ∉ segment)
    (hp : ∀ piece ∈ pieces, 0x2f ∉ piece) (first : Bool) :
    RegExp.matchAt (pathAtoms segs ++ [.stop]) first (pieces.flatMap (0x2f :: ·)) = captures segs pieces := by
  induction segs generalizing pieces first
  case nil => cases pieces <;> simp [pathAtoms, RegExp.matchAt, captures]
  case cons segment segs hi =>
    cases pieces
    case nil => simp [pathAtoms, RegExp.matchAt, captures]
    case cons piece pieces =>
      have hrest := hi (fun s h => hs s (List.mem_cons_of_mem _ h)) (fun p h => hp p (List.mem_cons_of_mem _ h)) false
      have hsep := separated_atoms segs
      have hpiece := hp piece List.mem_cons_self
      have hstep : RegExp.matchAt (pathAtoms (segment :: segs) ++ [.stop]) first ((piece :: pieces).flatMap (0x2f :: ·)) =
          RegExp.matchAt (segmentAtoms segment ++ (pathAtoms segs ++ [.stop])) false
            (piece ++ pieces.flatMap (0x2f :: ·)) := by
        simp [pathAtoms, RegExp.matchAt]
      by_cases hparam : isParam segment
      case pos =>
        have hgroup := RegExp.matchAt_group hsep hpiece (flatMap_slash pieces)
        rw [hstep]
        simpa [segmentAtoms, hparam, captures, hrest] using hgroup
      case neg =>
        have hliteral := RegExp.matchAt_literal hsep (hs segment List.mem_cons_self) hpiece (flatMap_slash pieces)
        rw [hstep]
        simpa [segmentAtoms, hparam, captures, hrest] using hliteral

theorem exec_matcher {pattern path : CodeUnits} {c : Compiled} (hc : Accepted pattern c) :
    RegExp.exec c.matcher path =
      if path.head? = some 0x2f then captures (segments pattern) (segments path) else none := by
  rw [hc.matcher, List.cons_append, RegExp.exec_start]
  by_cases h : path.head? = some 0x2f
  case pos =>
    have hpattern : ∀ segment ∈ segments pattern, 0x2f ∉ segment := fun _ h => not_mem_of_mem_segments h
    have := matchAt_segments hpattern (fun _ (h : _ ∈ segments path) => not_mem_of_mem_segments h) true
    simpa [h, flatMap_segments h] using this
  case neg =>
    cases hs : segments pattern
    case nil  => exact absurd hs <| segments_ne_nil hc.slash
    case cons => cases path <;> simp_all [pathAtoms, RegExp.matchAt]

theorem captures_param {segment piece : CodeUnits} {segs pieces : List CodeUnits} (hp : isParam segment) :
    captures (segment :: segs) (piece :: pieces) =
      if piece = [] then none else (captures segs pieces).map (piece :: ·) := by
  simp [captures, hp]

theorem captures_static {segment piece : CodeUnits} {segs pieces : List CodeUnits} (hp : ¬isParam segment) :
    captures (segment :: segs) (piece :: pieces) = if segment = piece then captures segs pieces else none := by
  simp [captures, hp]

theorem captures_isSome_iff (segs pieces : List CodeUnits) :
    (captures segs pieces).isSome ↔ List.Forall₂ Fits segs pieces := by
  induction segs generalizing pieces
  case nil => cases pieces <;> simp [captures]
  case cons segment segs hi =>
    cases pieces
    case nil               => simp [captures]
    case cons piece pieces =>
      rw [List.forall₂_cons, ← hi pieces]
      by_cases hp : isParam segment
      case pos => by_cases hpiece : piece = [] <;> simp [captures_param hp, Fits, hp, hpiece]
      case neg =>
        have hfits : Fits segment piece ↔ segment = piece := by simp [Fits, hp]
        rw [captures_static hp, hfits]
        split <;> simp [*]

-- The path that segments give for values of their parameters.
def substitute (segs : List CodeUnits) (params : List (CodeUnits × CodeUnits)) : CodeUnits :=
  segs.flatMap fun segment => 0x2f :: if isParam segment then (params.lookup segment.tail).getD [] else segment

theorem substitute_cons_of_not_mem {segs : List CodeUnits} {name value : CodeUnits}
    {params : List (CodeUnits × CodeUnits)} (h : name ∉ paramNames segs) :
    substitute segs ((name, value) :: params) = substitute segs params := by
  refine List.flatMap_congr fun segment hm => ?_
  by_cases hp : isParam segment
  case pos =>
    have hne : segment.tail ≠ name := by
      rintro rfl
      exact h <| List.mem_map_of_mem <| List.mem_filter.mpr ⟨hm, hp⟩
    simp [hp, List.lookup_cons, beq_eq_false_iff_ne.mpr hne]
  case neg => simp [hp]

theorem length_captures {segs pieces caps : List CodeUnits} (h : captures segs pieces = some caps) :
    caps.length = (paramNames segs).length := by
  induction segs generalizing pieces caps
  case nil => cases pieces <;> simp_all [captures, paramNames]
  case cons segment segs hi =>
    cases pieces
    case nil               => simp [captures] at h
    case cons piece pieces =>
      by_cases hp : isParam segment
      case pos =>
        rw [captures_param hp, Option.ite_none_left_eq_some, Option.map_eq_some_iff] at h
        obtain ⟨_, rest, hrest, rfl⟩ := h
        simpa [paramNames, hp] using hi hrest
      case neg =>
        rw [captures_static hp, Option.ite_none_right_eq_some] at h
        simpa [paramNames, hp] using hi h.2

theorem substitute_captures {segs pieces caps : List CodeUnits} (hn : (paramNames segs).Nodup)
    (h : captures segs pieces = some caps) :
    substitute segs ((paramNames segs).zip caps) = pieces.flatMap (0x2f :: ·) := by
  induction segs generalizing pieces caps
  case nil => cases pieces <;> simp_all [captures, substitute]
  case cons segment segs hi =>
    cases pieces
    case nil               => simp [captures] at h
    case cons piece pieces =>
      by_cases hp : isParam segment
      case pos =>
        have hnames : paramNames (segment :: segs) = segment.tail :: paramNames segs := by simp [paramNames, hp]
        rw [captures_param hp, Option.ite_none_left_eq_some, Option.map_eq_some_iff] at h
        obtain ⟨_, rest, hrest, rfl⟩ := h
        rw [hnames, List.nodup_cons] at hn
        rw [hnames, List.zip_cons_cons, substitute, List.flatMap_cons, ← substitute, substitute_cons_of_not_mem hn.1,
          hi hn.2 hrest]
        simp [hp]
      case neg =>
        have hnames : paramNames (segment :: segs) = paramNames segs := by simp [paramNames, hp]
        rw [captures_static hp, Option.ite_none_right_eq_some] at h
        obtain ⟨rfl, h⟩ := h
        rw [hnames] at hn ⊢
        rw [substitute, List.flatMap_cons, ← substitute, hi hn h]
        simp [hp]

section SamePaths

theorem segmentShape_eq_of_fits {segment segment' : CodeUnits} (hs : 0x2f ∉ segment) (hs' : 0x2f ∉ segment')
    (h : ∀ piece, 0x2f ∉ piece → (Fits segment piece ↔ Fits segment' piece)) :
    segmentShape segment = segmentShape segment' := by
  -- One more unit makes a piece that only a parameter takes.
  have hmore {s : CodeUnits} (hs : 0x2f ∉ s) : 0x2f ∉ s ++ [0x61] := by simp [hs]
  by_cases hp : isParam segment <;> by_cases hp' : isParam segment'
  case pos => simp [segmentShape, hp, hp']
  case neg => simpa [Fits, hp, hp'] using h _ (hmore hs')
  case pos => simpa [Fits, hp, hp'] using h _ (hmore hs)
  case neg => simpa [segmentShape, Fits, hp, hp', eq_comm] using h segment hs

theorem exists_fits {segment : CodeUnits} (hs : 0x2f ∉ segment) : ∃ piece, 0x2f ∉ piece ∧ Fits segment piece := by
  by_cases hp : isParam segment
  case pos => exact ⟨[0x61], by simp, by simp [Fits, hp]⟩
  case neg => exact ⟨segment, hs, by simp [Fits, hp]⟩

theorem exists_forall₂_fits {segs : List CodeUnits} (hs : ∀ segment ∈ segs, 0x2f ∉ segment) :
    ∃ pieces : List CodeUnits, (∀ piece ∈ pieces, 0x2f ∉ piece) ∧ List.Forall₂ Fits segs pieces := by
  induction segs
  case nil                  => exact ⟨[], by simp, .nil⟩
  case cons segment segs hi =>
    have ⟨piece, hpiece, hfits⟩ := exists_fits <| hs segment List.mem_cons_self
    have ⟨pieces, hpieces, hall⟩ := hi fun s h => hs s <| List.mem_cons_of_mem _ h
    exact ⟨piece :: pieces, by simpa [hpiece] using hpieces, .cons hfits hall⟩

theorem shapes_eq_of_fits {segs segs' : List CodeUnits} (hs : ∀ segment ∈ segs, 0x2f ∉ segment)
    (hs' : ∀ segment ∈ segs', 0x2f ∉ segment)
    (h : ∀ pieces : List CodeUnits, (∀ piece ∈ pieces, 0x2f ∉ piece) →
      (List.Forall₂ Fits segs pieces ↔ List.Forall₂ Fits segs' pieces)) :
    segs.map segmentShape = segs'.map segmentShape := by
  induction segs generalizing segs'
  case nil => cases (h [] (by simp)).mp .nil; rfl
  case cons segment segs hi =>
    have hsegs := fun s hm => hs s (List.mem_cons_of_mem segment hm)
    have ⟨piece, hpiece, hfits⟩ := exists_fits <| hs segment List.mem_cons_self
    have ⟨pieces, hpieces, hall⟩ := exists_forall₂_fits hsegs
    cases (h (piece :: pieces) (by simpa [hpiece] using hpieces)).mp (.cons hfits hall)
    case cons segment' segs' hfits' hall' =>
      have hhead : segmentShape segment = segmentShape segment' := by
        refine segmentShape_eq_of_fits (hs _ List.mem_cons_self) (hs' _ List.mem_cons_self) fun p hp => ?_
        simpa [hall, hall'] using h (p :: pieces) (by simpa [hp] using hpieces)
      have htail : segs.map segmentShape = segs'.map segmentShape := by
        refine hi hsegs (fun s hm => hs' s (List.mem_cons_of_mem _ hm)) fun ps hps => ?_
        simpa [hfits, hfits'] using h (piece :: ps) (by simpa [hpiece] using hps)
      rw [List.map_cons, List.map_cons, hhead, htail]

theorem fits_congr {segment segment' : CodeUnits} (h : segmentShape segment = segmentShape segment') :
    Fits segment = Fits segment' := by
  funext piece
  by_cases hp : isParam segment <;> by_cases hp' : isParam segment' <;> simp_all [segmentShape, Fits]

theorem forall₂_fits_congr {segs segs' pieces : List CodeUnits} (h : segs.map segmentShape = segs'.map segmentShape) :
    List.Forall₂ Fits segs pieces ↔ List.Forall₂ Fits segs' pieces := by
  induction segs generalizing segs' pieces
  case nil =>
    cases segs'
    case nil  => rfl
    case cons => simp at h
  case cons segment segs hi =>
    cases segs'
    case nil  => simp at h
    case cons segment' segs' =>
      simp only [List.map_cons, List.cons.injEq] at h
      cases pieces <;> simp [fits_congr h.1, hi h.2]

-- Two patterns match the same paths if they differ in the names of parameters alone.
theorem samePaths_iff {pattern pattern' : CodeUnits} (h : pattern.head? = some 0x2f) (h' : pattern'.head? = some 0x2f) :
    (∀ path, Matches pattern path ↔ Matches pattern' path) ↔ shape pattern = shape pattern' := by
  constructor
  case mpr => exact fun hs path => and_congr_right fun _ => forall₂_fits_congr hs
  case mp =>
    intro hall
    refine shapes_eq_of_fits (fun _ => not_mem_of_mem_segments) (fun _ => not_mem_of_mem_segments) fun pieces hp => ?_
    cases pieces
    case nil => simp [List.forall₂_nil_right_iff, segments_ne_nil h, segments_ne_nil h']
    case cons piece pieces =>
      have := hall ((piece :: pieces).flatMap (0x2f :: ·))
      rw [Matches, Matches, segments_flatMap hp] at this
      simpa using this

end SamePaths

end Matching

end Routes

-- The routes that the processes of plugins register, and the one that takes a request.
namespace Routes

variable {Process : Type}

def methods : List CodeUnits :=
  [text "GET", text "POST", text "PUT", text "DELETE"]

def maxPluginRoutes : ℕ :=
  128

-- `granted` is the permission for routes. An id of a plugin is one line.
structure Host (Process : Type) where
  pluginId    : Process → CodeUnits
  granted     : Process → Bool
  toUpperCase : CodeUnits → CodeUnits
  line        : ∀ process, 0x0a ∉ pluginId process
  upper       : ∀ method ∈ methods, toUpperCase method = method

structure Registration (Process : Type) where
  pluginId : CodeUnits
  routeId  : CodeUnits
  method   : CodeUnits
  path     : CodeUnits
  compiled : Compiled
  process  : Process

-- A map by its entries in the order of their insertion.
abbrev Table (Process : Type) := List (CodeUnits × Registration Process)

-- The arguments of a call are `none` where they are no strings. A process that ends is removed.
inductive Call (Process : Type)
  | register (process : Process) (routeId method path : Option CodeUnits)
  | unregister (process : Process) (routeId : Option CodeUnits)
  | remove (process : Process)

section Code

def requireString (value : Option CodeUnits) (field : String) : Except RouteError CodeUnits :=
  match value with
  | none       => .error (.argument field)
  | some value => .ok value

variable [DecidableEq Process] (host : Host Process)

omit [DecidableEq Process] in
def Host.routeKey (pluginId method path : CodeUnits) : CodeUnits :=
  pluginId ++ 0x0a :: (host.toUpperCase method ++ 0x0a :: path)

def Host.insert (process : Process) (routeId method path : CodeUnits) (compiled : Compiled) (routes : Table Process) :
    Except RouteError (Table Process) :=
  if !methods.contains method then
    .error .methodInvalid
  else
    let key := host.routeKey (host.pluginId process) method compiled.patternKey
    if routes.any (·.1 = key) then
      .error (.conflict path)
    else if routes.countP (·.2.process = process) ≥ maxPluginRoutes then
      .error (.limitExceeded maxPluginRoutes)
    else
      .ok <| routes ++ [(key, ⟨host.pluginId process, routeId, method, path, compiled, process⟩)]

def Host.executeRpc (routes : Table Process) : Call Process → Except RouteError (Table Process)
  | .register process routeId method path =>
    if !host.granted process then
      .error .permissionDenied
    else do
      let routeId ← requireString routeId "routeId"
      let method ← requireString method "method"
      let path ← validateRoutePath (← requireString path "path")
      let compiled ← compileRoutePath path
      host.insert process routeId (host.toUpperCase method) path compiled routes
  | .unregister process routeId => do
    let routeId ← requireString routeId "routeId"
    return routes.filter fun entry => ¬(entry.2.process = process ∧ entry.2.routeId = routeId)
  | .remove process             => .ok <| routes.filter (·.2.process ≠ process)

-- A call that fails leaves the routes as they are.
def Host.run (calls : List (Call Process)) : Table Process :=
  calls.foldl (fun routes call => (host.executeRpc routes call).toOption.getD routes) []

-- One turn of the loop over the routes, with what the groups of the best have captured.
def Host.consider (pluginId method path : CodeUnits) (best : Option (Registration Process × List CodeUnits))
    (entry : CodeUnits × Registration Process) : Option (Registration Process × List CodeUnits) :=
  let registration := entry.2
  if registration.pluginId ≠ pluginId ∨ registration.method ≠ host.toUpperCase method ∨
      best.any (registration.compiled.specificity < ·.1.compiled.specificity) then
    best
  else
    match RegExp.exec registration.compiled.matcher path with
    | none           => best
    | some candidate => some (registration, candidate)

def Host.findRoute (routes : Table Process) (pluginId method path : CodeUnits) :
    Option (Registration Process × List (CodeUnits × CodeUnits)) :=
  (routes.foldl (host.consider pluginId method path) none).map fun (best, groups) =>
    (best, best.compiled.paramNames.zipIdx.map fun (name, index) => (name, groups[index]?.getD []))

end Code

section Invariant

variable {host : Host Process} {routes routes' : Table Process}

structure Entry (host : Host Process) (entry : CodeUnits × Registration Process) : Prop where
  key      : entry.1 = host.routeKey entry.2.pluginId entry.2.method entry.2.compiled.patternKey
  plugin   : entry.2.pluginId = host.pluginId entry.2.process
  method   : entry.2.method ∈ methods
  accepted : Accepted entry.2.path entry.2.compiled

structure Inv (host : Host Process) (routes : Table Process) : Prop where
  keys    : (routes.map Prod.fst).Nodup
  entries : ∀ entry ∈ routes, Entry host entry

theorem Inv.filter (h : Inv host routes) (p : CodeUnits × Registration Process → Bool) :
    Inv host (routes.filter p) where
  keys          := h.keys.sublist <| List.filter_sublist.map _
  entries _ hm  := h.entries _ (List.mem_of_mem_filter hm)

variable [DecidableEq Process]

omit [DecidableEq Process] in
theorem validateRoutePath_ok {path path' : CodeUnits} (h : validateRoutePath path = .ok path') :
    path' = path ∧ path.head? = some 0x2f := by
  simp only [validateRoutePath] at h
  split at h
  case isTrue      => cases h
  case isFalse hno =>
    cases h
    simp_all

theorem Inv.insert {process : Process} {routeId method path : CodeUnits} {compiled : Compiled} (h : Inv host routes)
    (hc : Accepted path compiled) (hi : host.insert process routeId method path compiled routes = .ok routes') :
    Inv host routes' := by
  simp only [Host.insert] at hi
  split at hi
  case isTrue         => cases hi
  case isFalse hmethod =>
    split at hi
    case isTrue       => cases hi
    case isFalse hkey =>
      split at hi
      case isTrue  => cases hi
      case isFalse =>
        cases hi
        constructor
        case keys    =>
          have hnew := hkey
          simp only [List.any_eq_true, decide_eq_true_eq, not_exists, not_and] at hnew
          simp only [List.map_append, List.nodup_append, h.keys]
          simp
          exact fun a r hm => hnew _ hm
        case entries =>
          intro entry hm
          cases List.mem_append.mp hm
          case inl hm => exact h.entries entry hm
          case inr hm =>
            obtain rfl := List.mem_singleton.mp hm
            exact ⟨rfl, rfl, by simpa using hmethod, hc⟩

theorem bind_eq_ok {α β ε : Type} {x : Except ε α} {f : α → Except ε β} {b : β} :
    x >>= f = .ok b ↔ ∃ a, x = .ok a ∧ f a = .ok b := by
  cases x <;> simp [bind, Except.bind]

theorem Inv.execute (h : Inv host routes) {call : Call Process} (he : host.executeRpc routes call = .ok routes') :
    Inv host routes' := by
  cases call
  case register process routeId method path =>
    simp only [Host.executeRpc] at he
    split at he
    case isTrue  => cases he
    case isFalse =>
      simp only [bind_eq_ok] at he
      obtain ⟨routeId, _, method, _, raw, _, path, hpath, compiled, hc, hi⟩ := he
      have ⟨he, hslash⟩ := validateRoutePath_ok hpath
      exact h.insert (compileRoutePath_ok (he ▸ hslash) hc) hi
  case unregister process routeId =>
    obtain ⟨routeId, _, he⟩ := bind_eq_ok.mp he
    cases he
    exact h.filter _
  case remove process =>
    cases he
    exact h.filter _

theorem run_concat (calls : List (Call Process)) (call : Call Process) :
    host.run (calls ++ [call]) = (host.executeRpc (host.run calls) call).toOption.getD (host.run calls) := by
  simp [Host.run]

theorem Inv.run (calls : List (Call Process)) : Inv host (host.run calls) := by
  induction calls using List.reverseRecOn
  case nil                           => exact ⟨List.nodup_nil, by simp [Host.run]⟩
  case append_singleton calls call hi =>
    rw [run_concat]
    cases he : host.executeRpc (host.run calls) call
    case error => exact hi
    case ok    => exact hi.execute he

end Invariant

section Dispatch

variable {host : Host Process} {pluginId method path : CodeUnits} {routes : Table Process}

structure Candidate (host : Host Process) (pluginId method path : CodeUnits) (r : Registration Process) : Prop where
  plugin : r.pluginId = pluginId
  method : r.method = host.toUpperCase method
  path   : Matches r.path path

-- Of the routes, the best that takes the request, the latest of those that are equal.
structure Best (host : Host Process) (pluginId method path : CodeUnits) (routes : Table Process)
    (r : Registration Process) : Prop where
  candidate : Candidate host pluginId method path r
  maximal   : ∀ entry ∈ routes, Candidate host pluginId method path entry.2 →
    entry.2.compiled.specificity ≤ r.compiled.specificity
  latest    : ∃ before key after, routes = before ++ (key, r) :: after ∧
    ∀ entry ∈ after, Candidate host pluginId method path entry.2 →
      entry.2.compiled.specificity < r.compiled.specificity

def Found (host : Host Process) (pluginId method path : CodeUnits) (routes : Table Process) :
    Option (Registration Process × List CodeUnits) → Prop
  | none             => ∀ entry ∈ routes, ¬Candidate host pluginId method path entry.2
  | some (r, groups) => Best host pluginId method path routes r ∧ RegExp.exec r.compiled.matcher path = some groups

theorem matches_iff {r : Registration Process} (h : Accepted r.path r.compiled) :
    Matches r.path path ↔ (RegExp.exec r.compiled.matcher path).isSome := by
  rw [exec_matcher h]
  by_cases hs : path.head? = some 0x2f <;> simp [Matches, hs, captures_isSome_iff]

variable {best : Option (Registration Process × List CodeUnits)} {entry : CodeUnits × Registration Process}

-- A route is passed by that does not take the request, or less specifically.
theorem Found.pass (h : Found host pluginId method path routes best)
    (he : Candidate host pluginId method path entry.2 →
      ∃ b ∈ best, entry.2.compiled.specificity < b.1.compiled.specificity) :
    Found host pluginId method path (routes ++ [entry]) best := by
  cases best
  case none =>
    have hno : ¬Candidate host pluginId method path entry.2 := fun hc => by simpa using he hc
    simpa [Found, or_imp, forall_and, hno] using h
  case some b =>
    have hless : Candidate host pluginId method path entry.2 →
        entry.2.compiled.specificity < b.1.compiled.specificity := by simpa using he
    have ⟨hbest, hgroups⟩ := h
    obtain ⟨before, key, after, hroutes, hafter⟩ := hbest.latest
    refine ⟨⟨hbest.candidate, ?maximal, before, key, after ++ [entry], by simp [hroutes], ?latest⟩, hgroups⟩
    case maximal =>
      intro e hm hc
      cases List.mem_append.mp hm
      case inl hm => exact hbest.maximal e hm hc
      case inr hm =>
        obtain rfl := List.mem_singleton.mp hm
        exact (hless hc).le
    case latest =>
      intro e hm hc
      cases List.mem_append.mp hm
      case inl hm => exact hafter e hm hc
      case inr hm =>
        obtain rfl := List.mem_singleton.mp hm
        exact hless hc

theorem Found.take {groups : List CodeUnits} (h : Found host pluginId method path routes best)
    (hc : Candidate host pluginId method path entry.2)
    (hg : RegExp.exec entry.2.compiled.matcher path = some groups)
    (hb : ∀ b ∈ best, b.1.compiled.specificity ≤ entry.2.compiled.specificity) :
    Found host pluginId method path (routes ++ [entry]) (some (entry.2, groups)) := by
  refine ⟨⟨hc, ?maximal, routes, entry.1, [], rfl, by simp⟩, hg⟩
  case maximal =>
    intro e hm hce
    cases List.mem_append.mp hm
    case inr hm =>
      obtain rfl := List.mem_singleton.mp hm
      exact le_rfl
    case inl hm =>
      cases best
      case none   => exact absurd hce <| h e hm
      case some b => exact (h.1.maximal e hm hce).trans <| hb b rfl

theorem Found.consider (h : Found host pluginId method path routes best) (he : Entry host entry) :
    Found host pluginId method path (routes ++ [entry]) (host.consider pluginId method path best entry) := by
  simp only [Host.consider]
  split
  case isTrue hskip =>
    refine h.pass fun hc => ?_
    simpa [hc.plugin, hc.method, Option.any_eq_true] using hskip
  case isFalse hkeep =>
    simp only [not_or, not_not] at hkeep
    cases hg : RegExp.exec entry.2.compiled.matcher path
    case none        => exact h.pass fun hc => by simpa [hg] using (matches_iff he.accepted).mp hc.path
    case some groups =>
      have hm : Matches entry.2.path path := (matches_iff he.accepted).mpr (by simp [hg])
      refine h.take ⟨hkeep.1, hkeep.2.1, hm⟩ hg fun b hb => ?_
      obtain rfl : best = some b := hb
      simpa using hkeep.2.2

theorem found_loop (h : ∀ entry ∈ routes, Entry host entry) (pluginId method path : CodeUnits) :
    Found host pluginId method path routes (routes.foldl (host.consider pluginId method path) none) := by
  induction routes using List.reverseRecOn
  case nil                              => simp [Found]
  case append_singleton routes entry hi =>
    rw [List.foldl_append, List.foldl_cons, List.foldl_nil]
    exact (hi fun e he => h e <| List.mem_append_left _ he).consider <| h entry (by simp)

-- What a request gets: the best route with the values of its parameters, which give the path again.
def Answers (host : Host Process) (routes : Table Process) (pluginId method path : CodeUnits) : Prop :=
  match host.findRoute routes pluginId method path with
  | none             => ∀ entry ∈ routes, ¬Candidate host pluginId method path entry.2
  | some (r, params) => Best host pluginId method path routes r ∧ substitute (segments r.path) params = path

theorem zipIdx_getD {names groups : List CodeUnits} (h : groups.length = names.length) :
    (names.zipIdx.map fun (name, index) => (name, groups[index]?.getD [])) = names.zip groups := by
  refine List.ext_getElem (by simp [h]) fun i hi hi' => ?_
  have hi : i < groups.length := by simp at hi; omega
  simp [hi]

theorem answers (h : Inv host routes) (pluginId method path : CodeUnits) : Answers host routes pluginId method path := by
  have hfound := found_loop h.entries pluginId method path
  simp only [Answers, Host.findRoute]
  cases hbest : routes.foldl (host.consider pluginId method path) none
  case none => simpa [Found, hbest] using hfound
  case some best =>
    obtain ⟨r, groups⟩ := best
    simp only [Found, hbest] at hfound
    obtain ⟨hr, hexec⟩ := hfound
    obtain ⟨before, key, after, hroutes, _⟩ := hr.latest
    have hentry : Accepted r.path r.compiled := (h.entries (key, r) (by simp [hroutes])).accepted
    have hslash := hr.candidate.path.1
    rw [exec_matcher hentry, if_pos hslash] at hexec
    simp only [Option.map_some, hentry.params, zipIdx_getD (length_captures hexec)]
    exact ⟨hr, by rw [substitute_captures (hentry.params ▸ hentry.distinct) hexec, flatMap_segments hslash]⟩

end Dispatch

section Conflicts

variable {host : Host Process} {routes : Table Process} {process : Process} {routeId method path : CodeUnits}
variable [DecidableEq Process]

-- A path that may be registered.
def Valid (path : CodeUnits) (compiled : Compiled) : Prop :=
  validateRoutePath path = .ok path ∧ compileRoutePath path = .ok compiled

theorem Valid.accepted {compiled : Compiled} (h : Valid path compiled) : Accepted path compiled :=
  compileRoutePath_ok (validateRoutePath_ok h.1).2 h.2

theorem line_inj {s s' t t' : CodeUnits} (h : 0x0a ∉ s) (h' : 0x0a ∉ s') (he : s ++ 0x0a :: t = s' ++ 0x0a :: t') :
    s = s' ∧ t = t' := by
  have hline := congrArg (List.takeWhile (· ≠ 0x0a)) he
  rw [RegExp.takeWhile_piece h (.inr ⟨t, rfl⟩), RegExp.takeWhile_piece h' (.inr ⟨t', rfl⟩)] at hline
  subst hline
  simpa using he

omit [DecidableEq Process] in
theorem routeKey_inj {id id' method method' path path' : CodeUnits} (hi : 0x0a ∉ id) (hi' : 0x0a ∉ id')
    (hm : method ∈ methods) (hm' : method' ∈ methods) :
    host.routeKey id method path = host.routeKey id' method' path' ↔ id = id' ∧ method = method' ∧ path = path' := by
  have hline : ∀ method ∈ methods, 0x0a ∉ method := by decide
  simp only [Host.routeKey, host.upper method hm, host.upper method' hm']
  constructor
  case mp =>
    intro he
    have ⟨hid, hrest⟩ := line_inj hi hi' he
    have ⟨hmethod, hpath⟩ := line_inj (hline method hm) (hline method' hm') hrest
    exact ⟨hid, hmethod, hpath⟩
  case mpr => rintro ⟨rfl, rfl, rfl⟩; rfl

-- The routes that a registration of a path meets.
def Same (host : Host Process) (process : Process) (method : CodeUnits) (r : Registration Process) : Prop :=
  r.pluginId = host.pluginId process ∧ r.method = host.toUpperCase method

theorem register_eq {compiled : Compiled} (hg : host.granted process) (hv : Valid path compiled) :
    host.executeRpc routes (.register process (some routeId) (some method) (some path)) =
      host.insert process routeId (host.toUpperCase method) path compiled routes := by
  simp [Host.executeRpc, hg, requireString, hv.1, hv.2, bind, Except.bind]

theorem insert_conflict_iff (h : Inv host routes) {compiled : Compiled} :
    host.insert process routeId (host.toUpperCase method) path compiled routes = .error (.conflict path) ↔
      ∃ entry ∈ routes, Same host process method entry.2 ∧ entry.2.compiled.patternKey = compiled.patternKey := by
  have hkey (hm : host.toUpperCase method ∈ methods) (entry) (he : entry ∈ routes) :
      entry.1 = host.routeKey (host.pluginId process) (host.toUpperCase method) compiled.patternKey ↔
        Same host process method entry.2 ∧ entry.2.compiled.patternKey = compiled.patternKey := by
    have hentry := h.entries entry he
    rw [hentry.key, routeKey_inj (hentry.plugin ▸ host.line _) (host.line _) hentry.method hm, Same, and_assoc]
  by_cases hm : host.toUpperCase method ∈ methods
  case neg =>
    -- No live route has a method that is none of the four.
    have hno : ∀ entry ∈ routes, ¬Same host process method entry.2 :=
      fun entry he hs => hm <| hs.2 ▸ (h.entries entry he).method
    constructor
    case mp  => simp [Host.insert, hm]
    case mpr => exact fun ⟨entry, he, hs, _⟩ => absurd hs <| hno entry he
  case pos =>
    have hany : routes.any (·.1 = host.routeKey (host.pluginId process) (host.toUpperCase method) compiled.patternKey) ↔
        ∃ entry ∈ routes, Same host process method entry.2 ∧ entry.2.compiled.patternKey = compiled.patternKey := by
      simp only [List.any_eq_true, decide_eq_true_eq]
      exact exists_congr fun entry => and_congr_right fun he => hkey hm entry he
    rw [← hany]
    cases hk : routes.any (·.1 = host.routeKey (host.pluginId process) (host.toUpperCase method) compiled.patternKey)
    case true  => simp [Host.insert, hm, hk]
    case false =>
      simp only [Host.insert, hm, hk, List.contains_eq_mem, decide_true, Bool.not_true, Bool.false_eq_true, if_false]
      split <;> simp

-- A registration is refused for a conflict where a live route takes the same paths.
def Exact (host : Host Process) (routes : Table Process) (call : Call Process) : Prop :=
  ∀ process routeId method path compiled, call = .register process (some routeId) (some method) (some path) →
    host.granted process → Valid path compiled →
      (host.executeRpc routes call = .error (.conflict path) ↔
        ∃ entry ∈ routes, Same host process method entry.2 ∧ ∀ request, Matches entry.2.path request ↔ Matches path request)

-- No fixed segment of a live route differs from the one of a registration in what follows a colon within it.
def Separate (host : Host Process) (routes : Table Process) (call : Call Process) : Prop :=
  ∀ process routeId method path compiled, call = .register process (some routeId) (some method) (some path) →
    host.granted process → Valid path compiled →
      ∀ entry ∈ routes, Same host process method entry.2 → entry.2.compiled.patternKey = compiled.patternKey →
        shape entry.2.path = shape path

omit [DecidableEq Process] in
theorem eq_of_key {entry entry' : CodeUnits × Registration Process} (h : Inv host routes) (he : entry ∈ routes)
    (he' : entry' ∈ routes) (hs : Same host process method entry.2) (hs' : Same host process method entry'.2)
    (hk : entry.2.compiled.patternKey = entry'.2.compiled.patternKey) : entry = entry' := by
  have hkey : entry.1 = entry'.1 := by
    rw [(h.entries entry he).key, (h.entries entry' he').key, hs.1, hs.2, hs'.1, hs'.2, hk]
  exact List.inj_on_of_nodup_map h.keys he he' hkey

theorem exact_iff_separate (h : Inv host routes) (call : Call Process) : Exact host routes call ↔ Separate host routes call := by
  refine forall₅_congr fun process routeId method path compiled => ?_
  refine forall₃_congr fun hcall hg hv => ?_
  -- Where all paths are the same, the keys are.
  have hpaths (entry) (he : entry ∈ routes) : (∀ request, Matches entry.2.path request ↔ Matches path request) ↔
      shape entry.2.path = shape path :=
    samePaths_iff (h.entries entry he).accepted.slash hv.accepted.slash
  have hkeys (entry) (he : entry ∈ routes) (hs : shape entry.2.path = shape path) :
      entry.2.compiled.patternKey = compiled.patternKey := by
    have ha := (h.entries entry he).accepted
    rw [ha.key, hv.accepted.key]
    exact patternKey_eq_of_shape_eq hs ha.slash hv.accepted.slash ha.valid hv.accepted.valid
  rw [hcall, register_eq hg hv, insert_conflict_iff h]
  constructor
  case mp =>
    intro hexact entry he hs hk
    have ⟨entry', he', hs', hsame⟩ := hexact.mp ⟨entry, he, hs, hk⟩
    have hshape := (hpaths entry' he').mp hsame
    rw [eq_of_key h he he' hs hs' (hk.trans (hkeys entry' he' hshape).symm)]
    exact hshape
  case mpr =>
    intro hsep
    constructor
    case mp  => exact fun ⟨entry, he, hs, hk⟩ => ⟨entry, he, hs, (hpaths entry he).mpr <| hsep entry he hs hk⟩
    case mpr => exact fun ⟨entry, he, hs, hp⟩ => ⟨entry, he, hs, hkeys entry he <| (hpaths entry he).mp hp⟩

end Conflicts

section Law

variable [DecidableEq Process] {host : Host Process}

structure Law (host : Host Process) (calls : List (Call Process)) : Prop where
  conflicts : ∀ before call after, calls = before ++ call :: after → Exact host (host.run before) call
  requests  : ∀ before after, calls = before ++ after →
    ∀ pluginId method path, Answers host (host.run before) pluginId method path

theorem dispatch_iff (host : Host Process) (calls : List (Call Process)) :
    Law host calls ↔
      ∀ before call after, calls = before ++ call :: after → Separate host (host.run before) call := by
  constructor
  case mp  => exact fun h before call after he => (exact_iff_separate (.run before) call).mp <| h.conflicts before call after he
  case mpr =>
    intro h
    constructor
    case conflicts => exact fun before call after he => (exact_iff_separate (.run before) call).mpr <| h before call after he
    case requests  => exact fun before _ _ => answers <| .run before

def asciiHost : Host Unit where
  pluginId _    := text "demo.plugin"
  granted _     := true
  toUpperCase t := t.map fun u => if 0x61 ≤ u && u ≤ 0x7a then u - 0x20 else u
  line _        := by decide
  upper         := by decide

def get (path : String) : Call Unit :=
  .register () (some (text "id")) (some (text "get")) (some (text path))

theorem dispatch_not_exact : ¬Law asciiHost [get "/a:b", get "/a:c"] := by
  intro h
  have hexact := h.conflicts [get "/a:b"] (get "/a:c") [] rfl
  have hvalid : ∃ compiled, Valid (text "/a:c") compiled := ⟨_, rfl, rfl⟩
  obtain ⟨compiled, hc⟩ := hvalid
  have hconflict := hexact () _ _ _ compiled rfl rfl hc
  have hrefused : asciiHost.executeRpc (asciiHost.run [get "/a:b"]) (get "/a:c") = .error (.conflict (text "/a:c")) := rfl
  obtain ⟨entry, hm, _, hsame⟩ := hconflict.mp hrefused
  have hpath : entry.2.path = text "/a:b" := by
    have hall : (asciiHost.run [get "/a:b"]).map (·.2.path) = [text "/a:b"] := rfl
    simpa [hall] using List.mem_map_of_mem (f := (·.2.path)) hm
  rw [hpath] at hsame
  exact absurd ((samePaths_iff (by decide) (by decide)).mp hsame) (by decide)

end Law

end Routes
