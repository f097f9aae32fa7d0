import Mathlib

namespace Wire

-- The length the generated checkers measure: UTF-16 code units.
def utf16Length (s : String) : Nat :=
  (s.toList.map fun c => if c.val < 0x10000 then 1 else 2).sum

@[simp]
theorem utf16Length_empty : utf16Length "" = 0 :=
  rfl

theorem utf16Length_replicate (n : Nat) {c : Char} (h : c.val < 0x10000) :
    utf16Length (.ofList <| List.replicate n c) = n := by
  simp [utf16Length, h]

-- A regular expression without repetition: one character class per position. Returns what follows.
def matchPrefix : List (Char → Bool) → List Char → Option (List Char)
  | [],      cs      => some cs
  | _ :: _,  []      => none
  | p :: ps, c :: cs => if p c then matchPrefix ps cs else none

theorem matchPrefix_append {ps qs : List (Char → Bool)} {cs ds : List Char}
    (h : matchPrefix ps cs = some []) : matchPrefix (ps ++ qs) (cs ++ ds) = matchPrefix qs ds := by
  induction ps generalizing cs
  case nil => simp_all [matchPrefix]
  case cons p ps ih =>
    cases cs
    case nil => simp [matchPrefix] at h
    case cons c cs =>
      simp only [matchPrefix, List.cons_append] at h ⊢
      split at h
      case isTrue hp  => simp [hp, ih h]
      case isFalse hp => contradiction

theorem matchPrefix_replicate {p : Char → Bool} {cs : List Char} (hl : cs.length = w)
    (h : ∀ c ∈ cs, p c) : matchPrefix (List.replicate w p) cs = some [] := by
  subst hl
  induction cs
  case nil => rfl
  case cons c cs ih =>
    have ⟨hc, hcs⟩ := List.forall_mem_cons.mp h
    simp [List.replicate_succ, matchPrefix, hc, ih hcs]

def isHexDigit (c : Char) : Bool :=
  ('0' ≤ c && c ≤ '9') || ('a' ≤ c && c ≤ 'f') || ('A' ≤ c && c ≤ 'F')

def uuidPattern : List (Char → Bool) :=
  List.replicate 8 isHexDigit ++ [(· == '-')] ++
  List.replicate 4 isHexDigit ++ [(· == '-')] ++
  [fun c => '1' ≤ c && c ≤ '5'] ++ List.replicate 3 isHexDigit ++ [(· == '-')] ++
  [fun c => "89abAB".toList.contains c] ++ List.replicate 3 isHexDigit ++ [(· == '-')] ++
  List.replicate 12 isHexDigit

-- The wire format `uuid`.
def isUuid (s : String) : Bool :=
  matchPrefix uuidPattern s.toList == some []

-- First members of the blocks of ten characters that `\d` stands for (Unicode 16, category Nd).
def digitZeros : List UInt32 := [
  0x30, 0x660, 0x6f0, 0x7c0, 0x966, 0x9e6, 0xa66, 0xae6, 0xb66, 0xbe6, 0xc66, 0xce6, 0xd66, 0xde6,
  0xe50, 0xed0, 0xf20, 0x1040, 0x1090, 0x17e0, 0x1810, 0x1946, 0x19d0, 0x1a80, 0x1a90, 0x1b50,
  0x1bb0, 0x1c40, 0x1c50, 0xa620, 0xa8d0, 0xa900, 0xa9d0, 0xa9f0, 0xaa50, 0xabf0, 0xff10, 0x104a0,
  0x10d30, 0x10d40, 0x11066, 0x110f0, 0x11136, 0x111d0, 0x112f0, 0x11450, 0x114d0, 0x11650, 0x116c0,
  0x116d0, 0x116da, 0x11730, 0x118e0, 0x11950, 0x11bf0, 0x11c50, 0x11d50, 0x11da0, 0x11f50, 0x16130,
  0x16a60, 0x16ac0, 0x16b50, 0x16d70, 0x1ccf0, 0x1d7ce, 0x1d7d8, 0x1d7e2, 0x1d7ec, 0x1d7f6, 0x1e140,
  0x1e2f0, 0x1e4f0, 0x1e5f1, 0x1e950, 0x1fbf0
]

def isDecimalDigit (c : Char) : Bool :=
  digitZeros.any fun z => z ≤ c.val && c.val < z + 10

theorem isDecimalDigit_of_ascii {c : Char} (h : '0' ≤ c ∧ c ≤ '9') : isDecimalDigit c := by
  have h₁ : (0x30 : UInt32) ≤ c.val := h.left
  have h₂ : c.val < (0x30 : UInt32) + 10 := by
    have : c.val ≤ (0x39 : UInt32) := h.right
    exact UInt32.lt_of_le_of_lt this (by decide)
  exact List.any_eq_true.mpr ⟨0x30, by simp [digitZeros], by simpa [h₁] using h₂⟩

def datePattern : List (Char → Bool) :=
  List.replicate 4 isDecimalDigit ++ [(· == '-')] ++ List.replicate 2 isDecimalDigit ++
  [(· == '-')] ++ List.replicate 2 isDecimalDigit ++ [(· == 'T')] ++
  List.replicate 2 isDecimalDigit ++ [(· == ':')] ++ List.replicate 2 isDecimalDigit ++
  [(· == ':')] ++ List.replicate 2 isDecimalDigit

def offsetPattern : List (Char → Bool) :=
  [fun c => c == '+' || c == '-'] ++ List.replicate 2 isDecimalDigit ++ [(· == ':')] ++
  List.replicate 2 isDecimalDigit

def isZone (cs : List Char) : Bool :=
  cs == ['Z'] || matchPrefix offsetPattern cs == some []

-- What may follow the seconds. No zone starts with a digit, so the fraction ends with its digits.
def isFractionAndZone : List Char → Bool
  | '.' :: cs => (cs.head?.any isDecimalDigit) && isZone (cs.dropWhile isDecimalDigit)
  | cs        => isZone cs

-- The wire format `date-time`.
def isDateTime (s : String) : Bool :=
  (matchPrefix datePattern s.toList).any isFractionAndZone

end Wire
