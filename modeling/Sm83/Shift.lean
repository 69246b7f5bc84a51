import Sm83.Alu

/-!
Rotations and shifts of a byte. Each has a result, the bit that leaves the byte, and a rule for the
flags: the bit that leaves becomes the carry, and only the rotations and the exchange of halves look
at whether the result is zero.
-/

namespace Sm83

/-- The rotations by one place. -/
inductive Rotate
  /-- Left, the top bit coming back in at the bottom. -/
  | rlc
  /-- Right, the bottom bit coming back in at the top. -/
  | rrc
  /-- Left through the carry. -/
  | rl
  /-- Right through the carry. -/
  | rr
deriving DecidableEq

/-- The rotations and shifts of the extended table. -/
inductive Shift
  | rotate (r : Rotate)
  /-- Left, a zero coming in. -/
  | sla
  /-- Right, the sign staying. -/
  | sra
  /-- The two halves of the byte exchanged. -/
  | swap
  /-- Right, a zero coming in. -/
  | srl
deriving DecidableEq

/-- The rotated byte, given the carry before. -/
def Rotate.result (r : Rotate) (carry : Bool) (v : Byte) : Byte :=
  match r with
  | .rlc => v <<< 1 ||| v >>> 7
  | .rrc => v >>> 1 ||| v <<< 7
  | .rl => v <<< 1 ||| (if carry then 0x01 else 0)
  | .rr => v >>> 1 ||| (if carry then 0x80 else 0)

/-- The bit that leaves the byte: the top one to the left, the bottom one to the right. -/
def Rotate.carryOut (r : Rotate) (v : Byte) : Bool :=
  match r with
  | .rlc | .rl => v.bit 7
  | .rrc | .rr => v.bit 0

namespace Shift

/-- The shifted byte, given the carry before. -/
def result (s : Shift) (carry : Bool) (v : Byte) : Byte :=
  match s with
  | .rotate r => r.result carry v
  | .sla => v <<< 1
  | .sra => v >>> 1 ||| (if v.bit 7 then 0x80 else 0)
  | .swap => v <<< 4 ||| v >>> 4
  | .srl => v >>> 1

/-- The bit that leaves the byte; none leaves when the halves change places. -/
def carryOut (s : Shift) (v : Byte) : Bool :=
  match s with
  | .rotate r => r.carryOut v
  | .sla => v.bit 7
  | .sra | .srl => v.bit 0
  | .swap => false

/-- Whether the zero flag stays as it was. -/
def keepsZero : Shift → Bool
  | .sla | .sra | .srl => true
  | .rotate _ | .swap => false

/-- The shifted byte and the flags after it. -/
def apply (s : Shift) (v : Byte) (f : Flags) : Alu.Result Byte :=
  let value := s.result f.carry v
  { value
    flags :=
      { zero := if s.keepsZero then f.zero else value == 0
        carry := s.carryOut v
        halfCarry := false
        negate := false } }

end Shift

end Sm83
