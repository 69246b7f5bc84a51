import Sm83.Word
import Sm83.Flags

/-!
The register file. The sixteen-bit pairs are views of the eight-bit registers, high byte first, so
they hold nothing of their own: reading a pair after writing it gives the word back, except that the
lower half of `af` keeps only the four flags (`stackPair_setStackPair`).
-/

namespace Sm83

/-- The registers and flags. -/
structure Registers where
  /-- The accumulator. -/
  a : Byte
  b : Byte
  c : Byte
  d : Byte
  e : Byte
  h : Byte
  l : Byte
  flags : Flags
  /-- The stack pointer: the address of the last byte pushed. -/
  sp : Word
  /-- The program counter: the address of the next opcode. -/
  pc : Word
deriving DecidableEq

/-- The sixteen-bit operands of loads and arithmetic. -/
inductive Pair
  | bc
  | de
  | hl
  | sp
deriving DecidableEq

/-- The sixteen-bit operands of pushes and pops. -/
inductive StackPair
  | bc
  | de
  | hl
  | af
deriving DecidableEq

namespace Registers

/-- The accumulator over the packed flags. -/
def af (r : Registers) : Word :=
  .ofBytes r.a r.flags.pack

/-- Register `b` over register `c`. -/
def bc (r : Registers) : Word :=
  .ofBytes r.b r.c

/-- Register `d` over register `e`. -/
def de (r : Registers) : Word :=
  .ofBytes r.d r.e

/-- Register `h` over register `l`. -/
def hl (r : Registers) : Word :=
  .ofBytes r.h r.l

/-- Sets the accumulator and the flags; the low four bits of the word are lost. -/
def setAf (r : Registers) (w : Word) : Registers :=
  { r with a := w.high, flags := .unpack w.low }

/-- Sets `b` to the high byte and `c` to the low one. -/
def setBc (r : Registers) (w : Word) : Registers :=
  { r with b := w.high, c := w.low }

/-- Sets `d` to the high byte and `e` to the low one. -/
def setDe (r : Registers) (w : Word) : Registers :=
  { r with d := w.high, e := w.low }

/-- Sets `h` to the high byte and `l` to the low one. -/
def setHl (r : Registers) (w : Word) : Registers :=
  { r with h := w.high, l := w.low }

/-- The word in a pair. -/
def pair (r : Registers) : Pair → Word
  | .bc => r.bc
  | .de => r.de
  | .hl => r.hl
  | .sp => r.sp

/-- Puts a word into a pair. -/
def setPair (r : Registers) (p : Pair) (w : Word) : Registers :=
  match p with
  | .bc => r.setBc w
  | .de => r.setDe w
  | .hl => r.setHl w
  | .sp => { r with sp := w }

/-- The word in a pair as it is pushed. -/
def stackPair (r : Registers) : StackPair → Word
  | .bc => r.bc
  | .de => r.de
  | .hl => r.hl
  | .af => r.af

/-- Puts a popped word into a pair. -/
def setStackPair (r : Registers) (p : StackPair) (w : Word) : Registers :=
  match p with
  | .bc => r.setBc w
  | .de => r.setDe w
  | .hl => r.setHl w
  | .af => r.setAf w

/-- Sends the flags through their packed byte, with its low four bits cleared. -/
def normalize (r : Registers) : Registers :=
  { r with flags := .unpack (r.flags.pack &&& 0xF0) }

/-- The packed byte has no low bits to clear. -/
@[simp] theorem normalize_eq (r : Registers) : r.normalize = r := by
  rw [normalize, ← Flags.pack_unpack, Flags.unpack_pack, Flags.unpack_pack]

@[simp] theorem pair_setPair (r : Registers) (p : Pair) (w : Word) : (r.setPair p w).pair p = w := by
  cases p <;> simp [setPair, pair, setBc, setDe, setHl, bc, de, hl]

/-- A popped word reads back, except for the bits of `af` that no flag is kept in. -/
theorem stackPair_setStackPair (r : Registers) (p : StackPair) (w : Word) :
    (r.setStackPair p w).stackPair p =
      if p = .af then .ofBytes w.high (w.low &&& 0xF0) else w := by
  cases p <;> simp [setStackPair, stackPair, setBc, setDe, setHl, setAf, bc, de, hl, af,
    Flags.pack_unpack]

end Registers

end Sm83
