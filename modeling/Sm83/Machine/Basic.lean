import Sm83.Diagnostic
import Sm83.Instruction.Basic
import Sm83.Memory

/-!
The machine: its registers and memory, and the latches that say whether it runs, whether interrupts
are enabled, how many instructions it has taken and what it last reported. Beside it stand the ways
to read and write what instructions name: operand bytes, slots, pairs, addresses and the stack.

The program counter stays on the last byte of the instruction at hand until that instruction is over.
A jump therefore leaves it one below its target.
-/

namespace Sm83

/-- The state of a machine. -/
structure Machine where
  regs : Registers
  memory : Memory
  /-- Cleared when the machine halts. -/
  running : Bool
  interruptsEnabled : Bool
  /-- The number of instructions taken so far, modulo 2^64. -/
  instructionCount : UInt64
  lastDiagnostic : Option Diagnostic

namespace Machine

/-! ## Memory and flags -/

/-- The opcode the program counter points at. -/
def opcode (m : Machine) : Byte :=
  m.memory.get m.regs.pc

/-- The machine with one memory cell overwritten. -/
def write (m : Machine) (a : Word) (v : Byte) : Machine :=
  { m with memory := m.memory.set a v }

/-- The machine with a word stored low byte first. -/
def writeWord (m : Machine) (a w : Word) : Machine :=
  { m with memory := m.memory.setWord a w }

/-- The machine with other flags. -/
def setFlags (m : Machine) (f : Flags) : Machine :=
  { m with regs.flags := f }

/-- Sends the flags through their packed byte. -/
def normalize (m : Machine) : Machine :=
  { m with regs := m.regs.normalize }

/-- No flag is lost on the way. -/
@[simp] theorem normalize_eq (m : Machine) : m.normalize = m := by
  simp only [normalize, Registers.normalize_eq]

/-! ## The program counter -/

/-- Moves the program counter up. -/
def skip (m : Machine) (n : Word) : Machine :=
  { m with regs.pc := m.regs.pc + n }

/-- The byte behind the program counter. -/
def operandByte (m : Machine) : Byte :=
  m.memory.get (m.regs.pc + 1)

/-- The word behind the program counter. -/
def operandWord (m : Machine) : Word :=
  m.memory.getWord (m.regs.pc + 1)

/-- Makes the next instruction the one at the target, once the present one is over. -/
def jumpTo (m : Machine) (target : Word) : Machine :=
  { m with regs.pc := target - 1 }

/-- The address behind the present instruction, once its operands are skipped. -/
def nextAddress (m : Machine) : Word :=
  m.regs.pc + 1

/-! ## Operands -/

/-- The byte in a slot. -/
def slot (m : Machine) : Slot → Byte
  | .b => m.regs.b
  | .c => m.regs.c
  | .d => m.regs.d
  | .e => m.regs.e
  | .h => m.regs.h
  | .l => m.regs.l
  | .atHl => m.memory.get m.regs.hl
  | .a => m.regs.a

/-- Puts a byte into a slot. -/
def setSlot (m : Machine) (s : Slot) (v : Byte) : Machine :=
  match s with
  | .b => { m with regs.b := v }
  | .c => { m with regs.c := v }
  | .d => { m with regs.d := v }
  | .e => { m with regs.e := v }
  | .h => { m with regs.h := v }
  | .l => { m with regs.l := v }
  | .atHl => m.write m.regs.hl v
  | .a => { m with regs.a := v }

/-- Puts a word into a pair. -/
def setPair (m : Machine) (p : Pair) (w : Word) : Machine :=
  { m with regs := m.regs.setPair p w }

/-- Puts the flags of a result in place and then its value into a slot. -/
def store (m : Machine) (s : Slot) (r : Alu.Result Byte) : Machine :=
  (m.setFlags r.flags).setSlot s r.value

/-- The byte a source stands for. -/
def source (m : Machine) : Source → Byte
  | .slot s => m.slot s
  | .immediate => m.operandByte

/-- Skips the byte behind the opcode if it is the source. -/
def pastSource (m : Machine) : Source → Machine
  | .slot _ => m
  | .immediate => m.skip 1

/-- The address an operand stands for. -/
def address (m : Machine) : Address → Word
  | .bc => m.regs.bc
  | .de => m.regs.de
  | .hlIncrement | .hlDecrement => m.regs.hl
  | .highPage => .ofBytes 0xFF m.operandByte
  | .highPageC => .ofBytes 0xFF m.regs.c
  | .absolute => m.operandWord

/-- Skips the bytes an address is made of, or moves `hl` as the address asks for. -/
def pastAddress (m : Machine) : Address → Machine
  | .bc | .de | .highPageC => m
  | .hlIncrement => m.setPair .hl (m.regs.hl + 1)
  | .hlDecrement => m.setPair .hl (m.regs.hl - 1)
  | .highPage => m.skip 1
  | .absolute => m.skip 2

/-! ## The stack, which grows downwards -/

/-- Moves the stack pointer down and writes a byte there. -/
def pushByte (m : Machine) (v : Byte) : Machine :=
  { m with regs.sp := m.regs.sp - 1, memory := m.memory.set (m.regs.sp - 1) v }

/-- Pushes a word, its high byte first. -/
def push (m : Machine) (w : Word) : Machine :=
  (m.pushByte w.high).pushByte w.low

/-- The last byte pushed. -/
def topByte (m : Machine) : Byte :=
  m.memory.get m.regs.sp

/-- Forgets the last byte pushed. -/
def dropByte (m : Machine) : Machine :=
  { m with regs.sp := m.regs.sp + 1 }

/-- The last word pushed. -/
def top (m : Machine) : Word :=
  .ofBytes m.dropByte.topByte m.topByte

/-- Forgets the last word pushed. -/
def drop (m : Machine) : Machine :=
  m.dropByte.dropByte

end Machine

end Sm83
