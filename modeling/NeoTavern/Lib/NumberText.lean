import Mathlib
import NeoTavern.Lib.CodeUnits

-- Rounding to numbers in the binary64 format.
namespace Double

variable {q : ℚ} {n : ℕ}

-- The whole number next to `q`, an even one where two are equally near.
def roundEven (q : ℚ) : ℤ :=
  if 2 * (q - ⌊q⌋) < 1 then ⌊q⌋ else if 2 * (q - ⌊q⌋) = 1 ∧ ⌊q⌋ % 2 = 0 then ⌊q⌋ else ⌊q⌋ + 1

-- How far the doubles around `q` are apart.
def spacing (q : ℚ) : ℚ :=
  2 ^ max (Int.log 2 |q| - 52) (-1074)

-- The double next to `q`, unless `q` is too large for any.
def round (q : ℚ) : Option ℚ :=
  let r := roundEven (q / spacing q) * spacing q
  if 2 ^ 1024 ≤ |r| then none else some r

end Double

-- The numbers that texts stand for: `Number(t)`, where `none` is `NaN` or an infinity.
namespace NumberText

variable {t : CodeUnits}

def digit (u : UInt16) : Nat :=
  if 0x30 ≤ u && u ≤ 0x39 then
    u.toNat - 0x30
  else if 0x41 ≤ u && u ≤ 0x5a then
    u.toNat - 0x37
  else if 0x61 ≤ u && u ≤ 0x7a then
    u.toNat - 0x57
  else
    36

def isDigit (u : UInt16) : Bool :=
  0x30 ≤ u && u ≤ 0x39

-- `/^\d+$/`
def isNumeral (t : CodeUnits) : Bool :=
  t ≠ [] && t.all isDigit

def natural (base : Nat) (t : CodeUnits) : Nat :=
  t.foldl (fun n u => n * base + digit u) 0

-- The exponent of ten behind the digits.
def exponent : CodeUnits → Option Int
  | []     => some 0
  | u :: t =>
    if u = 0x65 ∨ u = 0x45 then
      match t with
      | 0x2d :: t => if isNumeral t then some (-natural 10 t) else none
      | 0x2b :: t => if isNumeral t then some (natural 10 t) else none
      | t         => if isNumeral t then some (natural 10 t) else none
    else
      none

def unsigned (t : CodeUnits) : Option ℚ := do
  let whole := t.takeWhile isDigit
  let (fraction, rest) := match t.dropWhile isDigit with
    | 0x2e :: rest => (rest.takeWhile isDigit, rest.dropWhile isDigit)
    | rest         => ([], rest)
  if whole = [] ∧ fraction = [] then
    none
  else
    let e ← exponent rest
    Double.round <| natural 10 (whole ++ fraction) * 10 ^ (e - fraction.length)

-- Digits to the base 2, 8 or 16 behind their prefix.
def prefixed (base : Nat) (t : CodeUnits) : Option ℚ :=
  if t ≠ [] ∧ t.all (digit · < base) then Double.round <| natural base t else none

def number (t : CodeUnits) : Option ℚ :=
  match t.trim with
  | []             => some 0
  | 0x2d :: t      => (unsigned t).map (- ·)
  | 0x2b :: t      => unsigned t
  | 0x30 :: u :: t =>
    if u = 0x78 ∨ u = 0x58 then prefixed 16 t
    else if u = 0x6f ∨ u = 0x4f then prefixed 8 t
    else if u = 0x62 ∨ u = 0x42 then prefixed 2 t
    else unsigned (0x30 :: u :: t)
  | t              => unsigned t

-- `Number(t)` where it is a whole number, as `Number.isInteger` tells.
def integer (t : CodeUnits) : Option Int :=
  match number t with
  | some q => if q.isInt then some q.num else none
  | none   => none

end NumberText

-- The numbers of the source: binary64, where the two zeros are one number.
inductive Number
  | nan
  | infinity (negative : Bool)
  | finite (q : ℚ)
  deriving DecidableEq

namespace Number

def ofRat (q : ℚ) : Number :=
  match Double.round q with
  | some r => finite r
  | none   => infinity (q < 0)

def ofInt (z : Int) : Number :=
  finite z

def isNegative : Number → Bool
  | nan        => false
  | infinity n => n
  | finite q   => q < 0

def add : Number → Number → Number
  | finite p, finite q     => ofRat (p + q)
  | nan, _                 => nan
  | _, nan                 => nan
  | infinity m, infinity n => if m = n then infinity m else nan
  | infinity m, _          => infinity m
  | _, infinity n          => infinity n

def mul : Number → Number → Number
  | finite p, finite q => ofRat (p * q)
  | nan, _             => nan
  | _, nan             => nan
  | a, b               =>
    -- A zero and an infinity have no product.
    if a = finite 0 ∨ b = finite 0 then nan else infinity (a.isNegative != b.isNegative)

def lt : Number → Number → Bool
  | finite p, finite q     => p < q
  | infinity m, infinity n => m && !n
  | infinity m, finite _   => m
  | finite _, infinity n   => !n
  | _, _                   => false

-- `Math.min` and `Math.max`
def min (a b : Number) : Number :=
  if a = nan ∨ b = nan then nan else if b.lt a then b else a

def max (a b : Number) : Number :=
  if a = nan ∨ b = nan then nan else if a.lt b then b else a

-- `2 ** n`
def powTwo (n : Int) : Number :=
  if 1024 ≤ n then infinity false else if n < -1074 then finite 0 else finite (2 ^ n)

-- The whole number of `Number.isSafeInteger`.
def safeInteger : Number → Option Int
  | finite q => if q.isInt ∧ |q.num| < 2 ^ 53 then some q.num else none
  | _        => none

end Number
