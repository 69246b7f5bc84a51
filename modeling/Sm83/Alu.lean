import Sm83.Flags
import Sm83.Word

/-!
The arithmetic and logic unit. Every operation takes its operands and says what value comes out and
what the flags are afterwards; where it leaves a flag alone, it takes the flags as they were.

Sums and differences come out whole, as numbers that may need a ninth bit or a sign. The zero flag of
an addition or a subtraction looks at that whole number, so a sum of 256 stores a zero byte and still
counts as not zero.
-/

namespace Sm83.Alu

/-- What an operation yields. -/
structure Result (α : Type) where
  value : α
  flags : Flags

/-- The operations on the accumulator, in the order of their codes. -/
inductive Op
  | add
  | adc
  | sub
  | sbc
  | and
  | xor
  | or
  | cp
deriving DecidableEq

/-! ## Addition and subtraction -/

/-- The sum of two bytes and a carry. The half carry is read off bit 3 of the sum and of the second
operand. -/
def add (a b : Byte) (carryIn : Bool) : Result Nat :=
  let sum := a.toNat + b.toNat + carryIn.toNat
  { value := sum
    flags :=
      { zero := sum == 0
        carry := decide (256 ≤ sum)
        halfCarry := sum.testBit 3 && b.bit 3
        negate := false } }

/-- The difference of two bytes less a borrow. The half carry is set when bit 3 is clear in the first
operand and set in the second. -/
def sub (a b : Byte) (borrowIn : Bool) : Result Int :=
  let difference : Int := a.toNat - b.toNat - borrowIn.toNat
  { value := difference
    flags :=
      { zero := difference == 0
        carry := decide (difference < 0)
        halfCarry := !a.bit 3 && b.bit 3
        negate := true } }

/-- The sum of two words. The zero flag stays as it was, and the half carry is read off bit 11. -/
def addWord (a b : Word) (f : Flags) : Result Nat :=
  let sum := a.toNat + b.toNat
  { value := sum
    flags :=
      { f with
        carry := decide (65536 ≤ sum)
        halfCarry := sum.testBit 11 && b.toNat.testBit 11
        negate := false } }

/-- The next byte. The carry stays as it was. -/
def increment (v : Byte) (f : Flags) : Result Byte where
  value := v + 1
  flags := { f with zero := v + 1 == 0, halfCarry := v &&& 0x0F == 0x0F, negate := false }

/-- The previous byte. The carry stays as it was. -/
def decrement (v : Byte) (f : Flags) : Result Byte where
  value := v - 1
  flags := { f with zero := v - 1 == 0, halfCarry := v &&& 0x0F == 0, negate := true }

/-! ## Logic -/

/-- A result of bitwise logic: it sets the zero flag by its value and never carries. -/
def logic (v : Byte) (halfCarry : Bool) : Result Byte where
  value := v
  flags := { zero := v == 0, carry := false, halfCarry, negate := false }

/-- Bitwise conjunction, which leaves the half carry set. -/
def and (a b : Byte) : Result Byte :=
  logic (a &&& b) true

/-- Bitwise exclusive disjunction. -/
def xor (a b : Byte) : Result Byte :=
  logic (a ^^^ b) false

/-- Bitwise disjunction. -/
def or (a b : Byte) : Result Byte :=
  logic (a ||| b) false

/-- The flags after a look at one bit: zero says that the bit is clear, and the carry stays. -/
def testBit (v : Byte) (i : Fin 8) (f : Flags) : Flags :=
  { f with zero := !v.bit i, halfCarry := false, negate := false }

/-! ## The accumulator -/

/-- The accumulator and the flags after an operation with an operand. Sums and differences are cut
to a byte, and a comparison is a subtraction that keeps the accumulator. -/
def Op.apply (op : Op) (a v : Byte) (f : Flags) : Result Byte :=
  match op with
  | .add => let r := Alu.add a v false; ⟨.ofNat r.value, r.flags⟩
  | .adc => let r := Alu.add a v f.carry; ⟨.ofNat r.value, r.flags⟩
  | .sub => let r := Alu.sub a v false; ⟨.ofInt r.value, r.flags⟩
  | .sbc => let r := Alu.sub a v f.carry; ⟨.ofInt r.value, r.flags⟩
  | .and => Alu.and a v
  | .xor => Alu.xor a v
  | .or => Alu.or a v
  | .cp => ⟨a, (Alu.sub a v false).flags⟩

end Sm83.Alu
