import Sm83.Registers
import Sm83.Shift

/-!
The instructions and their operands. Where two instructions do the same work on operands found in
different places, the place is an operand of its own: a `Source` is where an operand byte comes from,
and an `Address` is where the accumulator is stored to or loaded from.
-/

namespace Sm83

/-- The eight places an operand byte can be in, in the order of their codes. -/
inductive Slot
  | b
  | c
  | d
  | e
  | h
  | l
  /-- The memory cell whose address is in `hl`. -/
  | atHl
  | a
deriving DecidableEq

/-- Where an operand byte comes from. -/
inductive Source
  | slot (s : Slot)
  /-- The byte behind the opcode. -/
  | immediate
deriving DecidableEq

/-- Where in memory the accumulator is stored to or loaded from. -/
inductive Address
  | bc
  | de
  /-- The address in `hl`, which moves up by one afterwards. -/
  | hlIncrement
  /-- The address in `hl`, which moves down by one afterwards. -/
  | hlDecrement
  /-- The cell of the last page whose number is the byte behind the opcode. -/
  | highPage
  /-- The cell of the last page whose number is in register `c`. -/
  | highPageC
  /-- The word behind the opcode. -/
  | absolute
deriving DecidableEq

/-- When a jump, call or return is taken. -/
inductive Condition
  | always
  | notZero
  | zero
  | notCarry
  | carry
deriving DecidableEq

/-- Whether a condition holds of the flags; half carry and negate are never asked for. -/
def Condition.holds (c : Condition) (f : Flags) : Bool :=
  match c with
  | .always => true
  | .notZero => !f.zero
  | .zero => f.zero
  | .notCarry => !f.carry
  | .carry => f.carry

/-- The instructions of the primary table. -/
inductive Instruction
  | nop
  /-- Halts the machine. -/
  | stop
  | load (target : Slot) (source : Source)
  /-- Loads the word behind the opcode. -/
  | loadWord (target : Pair)
  | storeA (target : Address)
  | loadA (source : Address)
  /-- Stores the stack pointer at the word behind the opcode. -/
  | storeSp
  /-- Copies `hl` to the stack pointer. -/
  | copyHlToSp
  /-- Puts the stack pointer, displaced by the byte behind the opcode, into `hl`. -/
  | loadHlSpOffset
  /-- Displaces the stack pointer by the byte behind the opcode. -/
  | addSpOffset
  | alu (op : Alu.Op) (source : Source)
  | increment (slot : Slot)
  | decrement (slot : Slot)
  | incrementPair (pair : Pair)
  | decrementPair (pair : Pair)
  | addHl (pair : Pair)
  | rotateA (rotate : Rotate)
  /-- Recognised but not computed: it is reported and halts the machine. -/
  | decimalAdjust
  | complement
  | setCarry
  | complementCarry
  | jumpRelative (condition : Condition)
  | jump (condition : Condition)
  | jumpHl
  | call (condition : Condition)
  | ret (condition : Condition)
  /-- Returns and enables interrupts. -/
  | retInterrupt
  /-- Calls one of eight fixed addresses. -/
  | restart (vector : Byte)
  | push (pair : StackPair)
  | pop (pair : StackPair)
  | disableInterrupts
  | enableInterrupts
  /-- Hands over to the extended table. -/
  | extended
  /-- An opcode without a meaning: it is reported and skipped. -/
  | undefined (opcode : Byte)
deriving DecidableEq

/-- What an opcode of the extended table does to its slot. -/
inductive Extended
  | shift (s : Shift)
  | testBit (i : Fin 8)
  | setBit (i : Fin 8) (on : Bool)
deriving DecidableEq

end Sm83
