import Mathlib

-- The base64 code of RFC 4648 with the alphabet for URLs and file names, without padding.
namespace Base64

def alphabet : List Char :=
  "ABCDEFGHIJKLMNOPQRSTUVWXYZabcdefghijklmnopqrstuvwxyz0123456789-_".toList

def symbol (n : Nat) : Char :=
  alphabet.getD n 'A'

def value (c : Char) : Option Nat :=
  alphabet.findIdx? (· == c)

theorem value_symbol (h : n < 64) : value (symbol n) = some n := by
  decide +kernel +revert

theorem symbol_ascii (n : Nat) : (symbol n).val < 0x10000 := by
  have hall : alphabet.all (fun c => decide (c.val < 0x10000)) = true := by decide
  rw [symbol, List.getD_eq_getElem?_getD]
  cases h : alphabet[n]?
  case none   => decide
  case some c => exact of_decide_eq_true <| List.all_eq_true.mp hall c <| List.mem_of_getElem? h

section Sextets

-- The four groups of six bits in three bytes.
def first  (a : UInt8) : Nat := a.toNat / 4
def second (a b : UInt8) : Nat := a.toNat % 4 * 16 + b.toNat / 16
def third  (b c : UInt8) : Nat := b.toNat % 16 * 4 + c.toNat / 64
def fourth (c : UInt8) : Nat := c.toNat % 64

theorem first_lt (a : UInt8) : first a < 64 := by
  have ha := a.toNat_lt
  rw [first]
  omega

theorem second_lt (a b : UInt8) : second a b < 64 := by
  have hb := b.toNat_lt
  rw [second]
  omega

theorem third_lt (b c : UInt8) : third b c < 64 := by
  have hc := c.toNat_lt
  rw [third]
  omega

theorem fourth_lt (c : UInt8) : fourth c < 64 :=
  Nat.mod_lt _ <| by decide

def byte₁ (w x : Nat) : UInt8 := .ofNat (w * 4 + x / 16)
def byte₂ (x y : Nat) : UInt8 := .ofNat (x % 16 * 16 + y / 4)
def byte₃ (y z : Nat) : UInt8 := .ofNat (y % 4 * 64 + z)

theorem ofNat_eq {a : UInt8} (h : n = a.toNat) : UInt8.ofNat n = a :=
  h ▸ UInt8.ofNat_toNat

theorem byte₁_eq (a b : UInt8) : byte₁ (first a) (second a b) = a := by
  apply ofNat_eq
  have hb := b.toNat_lt
  rw [first, second]
  omega

theorem byte₂_eq (a b c : UInt8) : byte₂ (second a b) (third b c) = b := by
  apply ofNat_eq
  have hb := b.toNat_lt
  have hc := c.toNat_lt
  rw [second, third]
  omega

theorem byte₃_eq (b c : UInt8) : byte₃ (third b c) (fourth c) = c := by
  apply ofNat_eq
  have hc := c.toNat_lt
  rw [third, fourth]
  omega

end Sextets

def encode : List UInt8 → List Char
  | []                => []
  | [a]               => [symbol (first a), symbol (second a 0)]
  | [a, b]            => [symbol (first a), symbol (second a b), symbol (third b 0)]
  | a :: b :: c :: bs =>
    symbol (first a) :: symbol (second a b) :: symbol (third b c) :: symbol (fourth c) :: encode bs

-- The bits of the last symbol that belong to no byte have to be zero.
def decode : List Char → Option (List UInt8)
  | []                     => some []
  | [_]                    => none
  | [w, x]                 => do
    let w ← value w
    let x ← value x
    if x % 16 = 0 then return [byte₁ w x] else none
  | [w, x, y]              => do
    let w ← value w
    let x ← value x
    let y ← value y
    if y % 4 = 0 then return [byte₁ w x, byte₂ x y] else none
  | w :: x :: y :: z :: cs => do
    let w ← value w
    let x ← value x
    let y ← value y
    let z ← value z
    let bs ← decode cs
    return byte₁ w x :: byte₂ x y :: byte₃ y z :: bs

theorem decode_encode (bs : List UInt8) : decode (encode bs) = some bs := by
  fun_induction encode bs
  case case1 => rfl
  case case2 a =>
    have hz : second a 0 % 16 = 0 := by simp [second]
    simp [decode, value_symbol, first_lt, second_lt, hz, byte₁_eq]
  case case3 a b =>
    have hz : third b 0 % 4 = 0 := by simp [third]
    simp [decode, value_symbol, first_lt, second_lt, third_lt, hz, byte₁_eq, byte₂_eq]
  case case4 a b c bs ih =>
    simp [decode, value_symbol, first_lt, second_lt, third_lt, fourth_lt, ih, byte₁_eq, byte₂_eq,
      byte₃_eq]

example : encode [77, 97] = "TWE".toList := by
  decide +kernel

theorem length_encode (bs : List UInt8) : (encode bs).length = (4 * bs.length + 2) / 3 := by
  fun_induction encode bs
  case case4 a b c bs ih =>
    simp only [List.length_cons, ih]
    omega
  all_goals simp

theorem encode_ascii (h : c ∈ encode bs) : c.val < 0x10000 := by
  have hsymbol {n : Nat} (he : c = symbol n) : c.val < 0x10000 := he ▸ symbol_ascii n
  fun_induction encode bs
  case case1 => cases h
  case case2 =>
    simp only [List.mem_cons, List.not_mem_nil, or_false] at h
    exact h.elim hsymbol hsymbol
  case case3 =>
    simp only [List.mem_cons, List.not_mem_nil, or_false] at h
    exact h.elim hsymbol fun h => h.elim hsymbol hsymbol
  case case4 ih =>
    simp only [List.mem_cons] at h
    exact h.elim hsymbol fun h => h.elim hsymbol fun h => h.elim hsymbol fun h => h.elim hsymbol ih

end Base64

-- The base64 code with the usual alphabet and padding, and the reading of it that skips what is no symbol.
namespace PaddedBase64

open Base64 (first second third fourth byte₁ byte₂ byte₃)

def alphabet : List Char :=
  "ABCDEFGHIJKLMNOPQRSTUVWXYZabcdefghijklmnopqrstuvwxyz0123456789+/".toList

def symbol (n : Nat) : Char :=
  alphabet.getD n 'A'

-- The symbols of both alphabets.
def value (c : Char) : Option Nat :=
  (alphabet.findIdx? (· == c)).or (Base64.value c)

def encode : List UInt8 → List Char
  | []                => []
  | [a]               => [symbol (first a), symbol (second a 0), '=', '=']
  | [a, b]            => [symbol (first a), symbol (second a b), symbol (third b 0), '=']
  | a :: b :: c :: bs =>
    symbol (first a) :: symbol (second a b) :: symbol (third b c) :: symbol (fourth c) :: encode bs

-- Bits that are left over are dropped.
def bytesOf : List Nat → List UInt8
  | w :: x :: y :: z :: rest => byte₁ w x :: byte₂ x y :: byte₃ y z :: bytesOf rest
  | [w, x, y]                => [byte₁ w x, byte₂ x y]
  | [w, x]                   => [byte₁ w x]
  | _                        => []

def decode (text : List Char) : List UInt8 :=
  bytesOf <| text.filterMap value

theorem value_symbol (h : n < 64) : value (symbol n) = some n := by
  decide +kernel +revert

theorem value_padding : value '=' = none := by
  decide

theorem decode_encode (bs : List UInt8) : decode (encode bs) = bs := by
  rw [decode]
  fun_induction encode bs
  case case1            => rfl
  case case2 a          =>
    simp [value_symbol, Base64.first_lt, Base64.second_lt, value_padding, bytesOf, Base64.byte₁_eq]
  case case3 a b        =>
    simp [value_symbol, Base64.first_lt, Base64.second_lt, Base64.third_lt, value_padding, bytesOf, Base64.byte₁_eq,
      Base64.byte₂_eq]
  case case4 a b c bs ih =>
    simp [value_symbol, Base64.first_lt, Base64.second_lt, Base64.third_lt, Base64.fourth_lt, bytesOf,
      Base64.byte₁_eq, Base64.byte₂_eq, Base64.byte₃_eq, ih]

example : encode [77] = "TQ==".toList := by
  decide +kernel

theorem encode_ne_nil (h : bs ≠ []) : encode bs ≠ [] := by
  fun_cases encode bs
  case case1 => exact absurd rfl h
  all_goals exact List.cons_ne_nil _ _

theorem symbol_mem (n : Nat) : symbol n ∈ alphabet := by
  rw [symbol, List.getD_eq_getElem?_getD]
  cases h : alphabet[n]?
  case none   => decide
  case some c => exact List.mem_of_getElem? h

-- A code has symbols and padding only.
theorem mem_of_mem_encode (h : c ∈ encode bs) : c ∈ '=' :: alphabet := by
  have hsymbol {n : Nat} (he : c = symbol n) : c ∈ '=' :: alphabet := he ▸ List.mem_cons_of_mem _ (symbol_mem n)
  have hpadding (he : c = '=') : c ∈ '=' :: alphabet := he ▸ List.mem_cons_self
  fun_induction encode bs
  case case1         => cases h
  case case2         =>
    simp only [List.mem_cons, List.not_mem_nil, or_false] at h
    exact h.elim hsymbol fun h => h.elim hsymbol fun h => h.elim hpadding hpadding
  case case3         =>
    simp only [List.mem_cons, List.not_mem_nil, or_false] at h
    exact h.elim hsymbol fun h => h.elim hsymbol fun h => h.elim hsymbol hpadding
  case case4 ih      =>
    simp only [List.mem_cons] at h
    exact h.elim hsymbol fun h => h.elim hsymbol fun h => h.elim hsymbol fun h => h.elim hsymbol ih

end PaddedBase64
