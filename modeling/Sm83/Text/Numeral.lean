/-!
Decimal numerals of numbers that fit in 64 bits, read from left to right.

One plus sign may stand in front, and any number of zeros may lead. Reading stops at the first
character that is wrong: one that is no digit, or one that makes the number too large. A character
that is no digit is told before the size of the number is looked at.
-/

namespace Sm83.Text.Numeral

/-- Why a text is no numeral. -/
inductive Error
  | empty
  | invalidDigit
  | tooLarge
deriving DecidableEq

/-- The cause in words. -/
def Error.message : Error → String
  | .empty => "cannot parse integer from empty string"
  | .invalidDigit => "invalid digit found in string"
  | .tooLarge => "number too large to fit in target type"

/-- Numbers are read up to here, excluded. -/
def bound : Nat := UInt64.size

/-- The number behind an ASCII digit. -/
def digit? (c : Char) : Option Nat :=
  if '0' ≤ c ∧ c ≤ '9' then some (c.toNat - '0'.toNat) else none

/-- Reads digits behind those that made `n`. -/
def readDigits (n : Nat) : List Char → Except Error Nat
  | [] => .ok n
  | c :: rest =>
    match digit? c with
    | none => .error .invalidDigit
    | some d => if 10 * n + d < bound then readDigits (10 * n + d) rest else .error .tooLarge

/-- Reads a numeral. A sign needs at least one digit behind it. -/
def read : List Char → Except Error Nat
  | [] => .error .empty
  | ['+'] => .error .invalidDigit
  | '+' :: digits => readDigits 0 digits
  | digits => readDigits 0 digits

end Sm83.Text.Numeral
