import Sm83.Word

/-!
Hexadecimal numerals of a fixed width, in upper case.

A numeral of `w` digits has exactly `w` characters (`length_digits`) and reads back to the number it
was written from, as long as that number has at most `w` digits (`value_digits`).
-/

namespace Sm83.Text.Hex

/-- The character for a number below sixteen. -/
def digit (n : Nat) : Char :=
  Char.ofNat (if n < 10 then 0x30 + n else 0x41 + (n - 10))

/-- The last `width` digits of a number, leading zeros included. -/
def digits : Nat → Nat → List Char
  | 0, _ => []
  | width + 1, n => digits width (n / 16) ++ [digit (n % 16)]

/-- The number that a digit stands for. -/
def digitValue (c : Char) : Nat :=
  if c.toNat < 0x41 then c.toNat - 0x30 else c.toNat - 0x41 + 10

/-- The number that a numeral stands for. -/
def value (cs : List Char) : Nat :=
  cs.foldl (fun n c => n * 16 + digitValue c) 0

/-- A digit stands for the number it was written from. -/
theorem digitValue_digit (n : Nat) (h : n < 16) : digitValue (digit n) = n := by
  revert n
  decide

/-- The width is exact. -/
@[simp] theorem length_digits (width n : Nat) : (digits width n).length = width := by
  induction width generalizing n with
  | zero => rfl
  | succ width ih => simp [digits, ih]

/-- A numeral reads back if it has room for all digits. -/
theorem value_digits (width n : Nat) (h : n < Nat.pow 16 width) : value (digits width n) = n := by
  induction width generalizing n with
  | zero =>
    have small : n < 1 := h
    simp only [digits, value, List.foldl_nil]
    omega
  | succ width ih =>
    have shorter : n / 16 < Nat.pow 16 width := by
      rw [Nat.div_lt_iff_lt_mul (by decide)]
      exact h
    have front := ih (n / 16) shorter
    simp only [value] at front
    simp only [value, digits, List.foldl_append, front, List.foldl_cons, List.foldl_nil]
    rw [digitValue_digit _ (Nat.mod_lt _ (by decide))]
    omega

end Sm83.Text.Hex

namespace Sm83

/-- Two hexadecimal digits. -/
def Byte.hex (v : Byte) : String :=
  .ofList (Text.Hex.digits 2 v.toNat)

/-- Four hexadecimal digits. -/
def Word.hex (w : Word) : String :=
  .ofList (Text.Hex.digits 4 w.toNat)

end Sm83
