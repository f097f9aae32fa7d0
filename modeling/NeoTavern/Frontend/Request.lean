import NeoTavern.Lib.Assoc
import NeoTavern.Wire.Format
import Mathlib

-- What plugins in the browser ask the host for.
namespace Frontend

open Wire (utf16Length)

-- What crosses a message port. A number that is not finite is `none`.
inductive Value
  | undefined
  | null
  | boolean (b : Bool)
  | number (n : Option Rat)
  | string (s : String)
  | array (items : List Value)
  | object (fields : List (String × Value))

namespace Value

def record? : Value → Option (List (String × Value))
  | object fields => some fields
  | _             => none

def string? : Value → Option String
  | string s => some s
  | _        => none

-- A number that is finite.
def number? : Value → Option Rat
  | number n => n
  | _        => none

-- A whole number between zero and the bound.
def boundedInteger? (v : Value) (max : Nat) : Option Rat :=
  v.number?.filter fun n => n.den = 1 ∧ 0 ≤ n ∧ n ≤ max

def isNullish : Value → Bool
  | undefined => true
  | null      => true
  | _         => false

def isTrue : Value → Bool
  | boolean b => b
  | _         => false

end Value

-- What the application knows of a plugin.
structure InstalledPlugin where
  id                 : String
  name               : String
  version            : String := "1.0.0"
  enabled            : Bool := true
  hasFrontend        : Bool := true
  grantedPermissions : List String := []
  deriving DecidableEq

def field (record : List (String × Value)) (key : String) : Value :=
  (Assoc.get record key).getD .undefined

inductive KernelErrorCode
  | validationFailed
  | capabilityDenied
  | pluginQuotaExceeded
  | serviceNotFound
  | serviceUnavailable
  deriving DecidableEq

inductive Detail
  | text (s : String)
  | number (n : Nat)
  deriving DecidableEq

structure KernelError where
  code    : KernelErrorCode
  details : List (String × Detail)
  deriving DecidableEq

def denied (capability : String) (details : List (String × Detail) := []) : KernelError :=
  ⟨.capabilityDenied, ("capability", .text capability) :: details⟩

end Frontend
