import Mathlib

-- Texts as they are stored: sequences of UTF-16 code units, which a cut may leave with half a pair.
abbrev CodeUnits := List UInt16

instance : LawfulBEq CodeUnits := inferInstance

namespace CodeUnits

def ofChar (c : Char) : CodeUnits :=
  if c.toNat < 0x10000 then
    [c.toNat.toUInt16]
  else
    [(0xd800 + (c.toNat - 0x10000) / 0x400).toUInt16, (0xdc00 + (c.toNat - 0x10000) % 0x400).toUInt16]

def ofString (s : String) : CodeUnits :=
  s.toList.flatMap ofChar

def isSpace (u : UInt16) : Bool :=
  9 ≤ u && u ≤ 13 || u = 0x20 || u = 0xa0 || u = 0x1680 || 0x2000 ≤ u && u ≤ 0x200a || u = 0x2028 ||
  u = 0x2029 || u = 0x202f || u = 0x205f || u = 0x3000 || u = 0xfeff

def trim (t : CodeUnits) : CodeUnits :=
  ((t.dropWhile isSpace).reverse.dropWhile isSpace).reverse

-- A text that starts with no white space still does so without the white space at its end.
theorem dropWhile_of_trimmed {t : CodeUnits} (h : t.dropWhile isSpace = t) :
    (t.reverse.dropWhile isSpace).reverse.dropWhile isSpace = (t.reverse.dropWhile isSpace).reverse := by
  have hsplit : (t.reverse.dropWhile isSpace).reverse ++ (t.reverse.takeWhile isSpace).reverse = t := by
    rw [← List.reverse_append, List.takeWhile_append_dropWhile, List.reverse_reverse]
  cases hrest : (t.reverse.dropWhile isSpace).reverse
  case nil => rfl
  case cons u rest =>
    rw [hrest, List.cons_append] at hsplit
    rw [← hsplit] at h
    by_cases hu : isSpace u
    case neg => simp [hu]
    case pos =>
      have hlen := congrArg List.length h
      have hle := List.length_dropWhile_le isSpace (rest ++ (t.reverse.takeWhile isSpace).reverse)
      rw [List.dropWhile_cons_of_pos hu, List.length_cons] at hlen
      omega

theorem trim_trim (t : CodeUnits) : t.trim.trim = t.trim := by
  have hstart : t.trim.dropWhile isSpace = t.trim := dropWhile_of_trimmed <| List.dropWhile_idempotent isSpace t
  rw [trim, hstart, trim, List.reverse_reverse, List.dropWhile_idempotent]

example : (ofString " a b ").trim = ofString "a b" := by
  decide +kernel

-- `split(/\s+/)`: the pieces between runs of white space, the first and the last perhaps empty.
def splitSpace (t : CodeUnits) : List CodeUnits :=
  let pieces := t.splitOnP isSpace
  pieces.zipIdx.filterMap fun (piece, i) =>
    if piece = [] ∧ 0 < i ∧ i + 1 < pieces.length then none else some piece

-- `replace(/\s+/g, ' ')`. `inside` tells whether the unit before was white space.
def squeeze : (inside : Bool) → CodeUnits → CodeUnits
  | _, []          => []
  | inside, u :: t =>
    if isSpace u then
      if inside then squeeze true t else 0x20 :: squeeze true t
    else
      u :: squeeze false t

end CodeUnits
