import Sm83.Byte

/-!
The four condition flags and the byte they travel in.

Packing loses nothing (`unpack_pack`), and unpacking loses exactly the low four bits (`pack_unpack`).
-/

namespace Sm83

/-- The condition flags. -/
structure Flags where
  /-- The last result was zero. -/
  zero : Bool
  /-- The last operation carried out of, or borrowed into, the top bit. -/
  carry : Bool
  /-- The last operation carried out of, or borrowed into, bit 3. -/
  halfCarry : Bool
  /-- The last operation was a subtraction. -/
  negate : Bool
deriving DecidableEq

namespace Flags

/-- The flags as a byte: zero in bit 7, carry in bit 6, half carry in bit 5, negate in bit 4, and
nothing below. -/
def pack (f : Flags) : Byte :=
  (if f.zero then 0x80 else 0) ||| (if f.carry then 0x40 else 0) |||
    (if f.halfCarry then 0x20 else 0) ||| (if f.negate then 0x10 else 0)

/-- The flags held by the upper four bits of a byte. -/
def unpack (v : Byte) : Flags where
  zero := v.bit 7
  carry := v.bit 6
  halfCarry := v.bit 5
  negate := v.bit 4

/-- Packing keeps all four flags. -/
@[simp] theorem unpack_pack (f : Flags) : unpack f.pack = f := by
  obtain ⟨z, c, h, n⟩ := f
  revert z c h n
  decide

/-- The low four bits of a byte do not survive unpacking. -/
theorem pack_unpack (v : Byte) : (unpack v).pack = v &&& 0xF0 := by
  have upper : ∀ i : Fin 8, (0xF0 : Byte).bit i = decide (4 ≤ i) := by decide
  have packed : ∀ (z c h n : Bool) (i : Fin 8), (Flags.mk z c h n).pack.bit i =
      (if i = 7 then z else if i = 6 then c else if i = 5 then h else if i = 4 then n else false) := by
    decide
  apply Byte.ext_bit
  intro i
  rw [Byte.bit_and, upper, unpack, packed]
  match i with
  | 0 | 1 | 2 | 3 | 4 | 5 | 6 | 7 => simp +decide

end Flags

end Sm83
