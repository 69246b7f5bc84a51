/-!
Bytes, their single bits, and the fields of a byte that an opcode is read by.

The main statements say that setting a bit decides that bit and no other (`bit_setBit`), and that a
byte is known by its bits (`ext_bit`).
-/

namespace Sm83

/-- An eight-bit value; its arithmetic is modulo 256. -/
abbrev Byte := UInt8

namespace Byte

/-- Numerals stand for bit numbers. -/
instance width_ne_zero : @NeZero Nat Zero.ofOfNat0 8 := ⟨by decide⟩

/-- Bit `i` of a byte, the least significant one being bit 0. -/
def bit (v : Byte) (i : Fin 8) : Bool :=
  v.toNat.testBit i

/-- The byte whose only set bit is bit `i`. -/
def mask (i : Fin 8) : Byte :=
  1 <<< UInt8.ofNat i

/-- The byte with bit `i` forced to `on`. -/
def setBit (v : Byte) (i : Fin 8) (on : Bool) : Byte :=
  if on then v ||| mask i else v &&& ~~~ mask i

/-- Bits 3 to 5, which hold an operation, a bit number or the first of two slots. -/
def middle (v : Byte) : Fin 8 :=
  ⟨v.toNat / 8 % 8, by omega⟩

/-- Bits 0 to 2, which hold the slot an instruction works on. -/
def bottom (v : Byte) : Fin 8 :=
  ⟨v.toNat % 8, by omega⟩

/-- Bits 6 and 7, which tell the four bands of a table apart. -/
def top (v : Byte) : Fin 4 :=
  ⟨v.toNat / 64, by have := v.toNat_lt; omega⟩

theorem bit_eq_getLsbD (v : Byte) (i : Fin 8) : v.bit i = v.toBitVec.getLsbD i := rfl

theorem bit_or (v w : Byte) (i : Fin 8) : (v ||| w).bit i = (v.bit i || w.bit i) := by
  simp [bit]

theorem bit_and (v w : Byte) (i : Fin 8) : (v &&& w).bit i = (v.bit i && w.bit i) := by
  simp [bit]

theorem bit_not (v : Byte) (i : Fin 8) : (~~~ v).bit i = !v.bit i := by
  simp only [bit_eq_getLsbD, UInt8.toBitVec_not, BitVec.getLsbD_not]
  simp

theorem bit_mask (i j : Fin 8) : (mask i).bit j = decide (i = j) := by
  revert i j; decide

/-- Forcing a bit decides that bit and leaves the other seven. -/
theorem bit_setBit (v : Byte) (i j : Fin 8) (on : Bool) :
    (v.setBit i on).bit j = if i = j then on else v.bit j := by
  cases on <;> by_cases h : i = j <;> simp [setBit, bit_or, bit_and, bit_not, bit_mask, h]

/-- A byte is known by its eight bits. -/
theorem ext_bit {v w : Byte} (h : ∀ i, v.bit i = w.bit i) : v = w := by
  apply UInt8.toBitVec_inj.1
  apply BitVec.eq_of_getLsbD_eq
  intro i hi
  exact h ⟨i, hi⟩

end Byte

end Sm83
