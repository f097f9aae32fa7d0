import Mathlib

-- Addresses of the Internet, how resolvers and browsers write them, and which of them the registries
-- of special purpose addresses call globally reachable.
namespace Internet

abbrev Text := List Char

instance neZero256 : NeZero 256 := ⟨by simp⟩
instance neZero65536 : NeZero 65536 := ⟨by simp⟩

structure V4 where
  a : Fin 256
  b : Fin 256
  c : Fin 256
  d : Fin 256
  deriving DecidableEq

structure V6 where
  g₀ : Fin 65536
  g₁ : Fin 65536
  g₂ : Fin 65536
  g₃ : Fin 65536
  g₄ : Fin 65536
  g₅ : Fin 65536
  g₆ : Fin 65536
  g₇ : Fin 65536
  deriving DecidableEq

inductive Reach
  | global
  | host
  | restricted
  deriving DecidableEq

section Registry

namespace V4

def toNat (x : V4) : Nat :=
  ((x.a * 256 + x.b) * 256 + x.c) * 256 + x.d

def within (x block : V4) (bits : Nat) : Prop :=
  x.toNat / 2 ^ (32 - bits) = block.toNat / 2 ^ (32 - bits)

instance {x block : V4} {bits : Nat} : Decidable (x.within block bits) :=
  inferInstanceAs <| Decidable (_ = _)

section Within

variable {x : V4} {p q r s : Fin 256}

theorem within_4 : x.within ⟨p, 0, 0, 0⟩ 4 ↔ x.a.val / 16 = p.val / 16 := by
  change (((x.a.val * 256 + x.b) * 256 + x.c) * 256 + x.d) / 268435456 =
    (((p.val * 256 + 0) * 256 + 0) * 256 + 0) / 268435456 ↔ _
  omega

theorem within_8 : x.within ⟨p, 0, 0, 0⟩ 8 ↔ x.a = p := by
  change (((x.a.val * 256 + x.b) * 256 + x.c) * 256 + x.d) / 16777216 =
    (((p.val * 256 + 0) * 256 + 0) * 256 + 0) / 16777216 ↔ _
  omega

theorem within_10 : x.within ⟨p, q, 0, 0⟩ 10 ↔ x.a = p ∧ x.b.val / 64 = q.val / 64 := by
  change (((x.a.val * 256 + x.b) * 256 + x.c) * 256 + x.d) / 4194304 =
    (((p.val * 256 + q) * 256 + 0) * 256 + 0) / 4194304 ↔ _
  omega

theorem within_12 : x.within ⟨p, q, 0, 0⟩ 12 ↔ x.a = p ∧ x.b.val / 16 = q.val / 16 := by
  change (((x.a.val * 256 + x.b) * 256 + x.c) * 256 + x.d) / 1048576 =
    (((p.val * 256 + q) * 256 + 0) * 256 + 0) / 1048576 ↔ _
  omega

theorem within_15 : x.within ⟨p, q, 0, 0⟩ 15 ↔ x.a = p ∧ x.b.val / 2 = q.val / 2 := by
  change (((x.a.val * 256 + x.b) * 256 + x.c) * 256 + x.d) / 131072 =
    (((p.val * 256 + q) * 256 + 0) * 256 + 0) / 131072 ↔ _
  omega

theorem within_16 : x.within ⟨p, q, 0, 0⟩ 16 ↔ x.a = p ∧ x.b = q := by
  change (((x.a.val * 256 + x.b) * 256 + x.c) * 256 + x.d) / 65536 =
    (((p.val * 256 + q) * 256 + 0) * 256 + 0) / 65536 ↔ _
  omega

theorem within_24 : x.within ⟨p, q, r, 0⟩ 24 ↔ x.a = p ∧ x.b = q ∧ x.c = r := by
  change (((x.a.val * 256 + x.b) * 256 + x.c) * 256 + x.d) / 256 =
    (((p.val * 256 + q) * 256 + r) * 256 + 0) / 256 ↔ _
  omega

end Within

-- This network and loopback.
def Host (x : V4) : Prop :=
  x.within ⟨0, 0, 0, 0⟩ 8 ∨ x.within ⟨127, 0, 0, 0⟩ 8

-- Private use, shared address space, link-local, protocol assignments, documentation, benchmarking,
-- multicast and reserved.
def Restricted (x : V4) : Prop :=
  x.within ⟨10, 0, 0, 0⟩ 8 ∨ x.within ⟨100, 64, 0, 0⟩ 10 ∨ x.within ⟨169, 254, 0, 0⟩ 16 ∨
  x.within ⟨172, 16, 0, 0⟩ 12 ∨
  x.within ⟨192, 0, 0, 0⟩ 24 ∧ ¬x.within ⟨192, 0, 0, 9⟩ 32 ∧ ¬x.within ⟨192, 0, 0, 10⟩ 32 ∨
  x.within ⟨192, 0, 2, 0⟩ 24 ∨ x.within ⟨192, 168, 0, 0⟩ 16 ∨ x.within ⟨198, 18, 0, 0⟩ 15 ∨
  x.within ⟨198, 51, 100, 0⟩ 24 ∨ x.within ⟨203, 0, 113, 0⟩ 24 ∨ x.within ⟨224, 0, 0, 0⟩ 4 ∨
  x.within ⟨240, 0, 0, 0⟩ 4

instance {x : V4} : Decidable x.Host :=
  inferInstanceAs <| Decidable (_ ∨ _)

instance {x : V4} : Decidable x.Restricted :=
  inferInstanceAs <| Decidable (_ ∨ _)

def reach (x : V4) : Reach :=
  if x.Host then .host else if x.Restricted then .restricted else .global

end V4

namespace V6

def groups (x : V6) : List Nat :=
  [x.g₀, x.g₁, x.g₂, x.g₃, x.g₄, x.g₅, x.g₆, x.g₇]

-- The last 32 bits.
def low (x : V6) : V4 where
  a := ⟨x.g₆ / 256, by omega⟩
  b := ⟨x.g₆ % 256, by omega⟩
  c := ⟨x.g₇ / 256, by omega⟩
  d := ⟨x.g₇ % 256, by omega⟩

def Unspecified (x : V6) : Prop :=
  x.groups = [0, 0, 0, 0, 0, 0, 0, 0]

def Loopback (x : V6) : Prop :=
  x.groups = [0, 0, 0, 0, 0, 0, 0, 1]

def Mapped (x : V6) : Prop :=
  x.groups.take 6 = [0, 0, 0, 0, 0, 0xffff]

def Compatible (x : V6) : Prop :=
  x.groups.take 6 = [0, 0, 0, 0, 0, 0]

def Translated (x : V6) : Prop :=
  x.groups.take 6 = [0x64, 0xff9b, 0, 0, 0, 0]

-- Protocol assignments, of which a few are reachable, and documentation.
def Special (x : V6) : Prop :=
  x.g₀ = 0x2001 ∧ x.g₁.val < 0x200 ∧ ¬(
    x.groups.take 7 = [0x2001, 1, 0, 0, 0, 0, 0] ∧ (x.g₇ = 1 ∨ x.g₇ = 2 ∨ x.g₇ = 3) ∨ x.g₁ = 3 ∨
    x.g₁ = 4 ∧ x.g₂ = 0x112 ∨ x.g₁.val / 16 = 2 ∨ x.g₁.val / 16 = 3) ∨
  x.g₀ = 0x2001 ∧ x.g₁ = 0xdb8 ∨
  x.g₀ = 0x3fff ∧ x.g₁.val < 0x1000

-- Outside of `2000::/3` nothing is allocated to be reached globally.
def Global (x : V6) : Prop :=
  x.g₀.val / 0x2000 = 1 ∧ ¬x.Special

instance {x : V6} : Decidable x.Unspecified := inferInstanceAs <| Decidable (_ = _)
instance {x : V6} : Decidable x.Loopback    := inferInstanceAs <| Decidable (_ = _)
instance {x : V6} : Decidable x.Mapped      := inferInstanceAs <| Decidable (_ = _)
instance {x : V6} : Decidable x.Compatible  := inferInstanceAs <| Decidable (_ = _)
instance {x : V6} : Decidable x.Translated  := inferInstanceAs <| Decidable (_ = _)
instance {x : V6} : Decidable x.Special     := inferInstanceAs <| Decidable (_ ∨ _)
instance {x : V6} : Decidable x.Global      := inferInstanceAs <| Decidable (_ ∧ _)

-- The address of the older kind that an address stands for.
def embedded (x : V6) : Option V4 :=
  if x.Unspecified ∨ x.Loopback then none
  else if x.Mapped ∨ x.Compatible ∨ x.Translated then some x.low
  else none

def reach (x : V6) : Reach :=
  if x.Unspecified ∨ x.Loopback then .host
  else match x.embedded with
    | some y => y.reach
    | none   => if x.Global then .global else .restricted

end V6

end Registry

section Texts

def V4.text (x : V4) : Text :=
  ['.'].intercalate <| [x.a, x.b, x.c, x.d].map fun n => Nat.toDigits 10 n.val

def hexDigits (n : Nat) : List Nat :=
  if n < 0x10 then [n]
  else if n < 0x100 then [n / 0x10, n % 0x10]
  else if n < 0x1000 then [n / 0x100, n / 0x10 % 0x10, n % 0x10]
  else [n / 0x1000, n / 0x100 % 0x10, n / 0x10 % 0x10, n % 0x10]

def hexGroup (n : Nat) : Text :=
  (hexDigits n).map Nat.digitChar

def join (gs : List Nat) : Text :=
  [':'].intercalate <| gs.map hexGroup

def zeros (gs : List Nat) : Nat :=
  (gs.takeWhile (· = 0)).length

-- Where the longest run of zeros begins, the first one of them, and how long it is.
def longestZeros (gs : List Nat) : Nat × Nat :=
  (List.range gs.length).foldl
    (fun best i => if best.snd < zeros (gs.drop i) then (i, zeros (gs.drop i)) else best) (0, 0)

-- As a URL has it between its brackets.
def V6.hexText (x : V6) : Text :=
  let (base, n) := longestZeros x.groups
  if n < 2 then
    join x.groups
  else
    join (x.groups.take base) ++ [':', ':'] ++ join (x.groups.drop (base + n))

-- As resolvers present it.
def V6.text (x : V6) : Text :=
  if longestZeros x.groups = (0, 6) then
    [':', ':'] ++ x.low.text
  else if longestZeros x.groups = (0, 5) ∧ x.g₅ = 0xffff then
    [':', ':', 'f', 'f', 'f', 'f', ':'] ++ x.low.text
  else
    x.hexText

end Texts

end Internet
