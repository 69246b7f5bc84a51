import Sm83.Proofs.OpcodeTables
import Sm83.Proofs.StateUpdates

/-! Where a step goes. The tables below say for each opcode how many operand bytes follow it, and
whether it may go elsewhere than behind them. `pc_step_eq_table` says that a step goes exactly there,
whatever it stores on the way: everything is read from the machine as the step found it. -/
namespace Sm83

/-- Where a jump, a call or a return leads. -/
inductive Destination
  /-- A signed distance from behind the operand. -/
  | relative
  /-- The word behind the opcode. -/
  | operand
  /-- The address in `hl`. -/
  | hl
  /-- The word on top of the stack. -/
  | stackTop
  /-- An address on the first page. -/
  | fixed (vector : Byte)
deriving DecidableEq

/-- The address of a destination. -/
def Destination.address (m : Machine) : Destination → Word
  | .relative => m.regs.pc + 2 + (m.memory.get (m.regs.pc + 1)).toInt8.toInt16.toUInt16
  | .operand => .ofBytes (m.memory.get (m.regs.pc + 2)) (m.memory.get (m.regs.pc + 1))
  | .hl => m.regs.hl
  | .stackTop => .ofBytes (m.memory.get (m.regs.sp + 1)) (m.memory.get m.regs.sp)
  | .fixed v => v.toUInt16

/-! ## The tables by opcode -/

/-- How many operand bytes stand behind an opcode. -/
def operandCount (o : Byte) : Word :=
  match o.toNat with
  | 0x01 | 0x11 | 0x21 | 0x31
  | 0x08 | 0xEA | 0xFA
  | 0xC3 | 0xC2 | 0xCA | 0xD2 | 0xDA
  | 0xCD | 0xC4 | 0xCC | 0xD4 | 0xDC => 2
  | 0x06 | 0x0E | 0x16 | 0x1E | 0x26 | 0x2E | 0x36 | 0x3E
  | 0xC6 | 0xCE | 0xD6 | 0xDE | 0xE6 | 0xEE | 0xF6 | 0xFE
  | 0x18 | 0x20 | 0x28 | 0x30 | 0x38
  | 0xE0 | 0xF0 | 0xE8 | 0xF8 => 1
  | _ => 0

/-- Where an opcode may lead other than behind its operands, and on which condition. -/
def transfer? (o : Byte) : Option (Destination × Condition) :=
  match o.toNat with
  | 0x18 => some (.relative, .always)
  | 0x20 => some (.relative, .notZero)
  | 0x28 => some (.relative, .zero)
  | 0x30 => some (.relative, .notCarry)
  | 0x38 => some (.relative, .carry)
  | 0xC3 | 0xCD => some (.operand, .always)
  | 0xC2 | 0xC4 => some (.operand, .notZero)
  | 0xCA | 0xCC => some (.operand, .zero)
  | 0xD2 | 0xD4 => some (.operand, .notCarry)
  | 0xDA | 0xDC => some (.operand, .carry)
  | 0xE9 => some (.hl, .always)
  | 0xC9 | 0xD9 => some (.stackTop, .always)
  | 0xC0 => some (.stackTop, .notZero)
  | 0xC8 => some (.stackTop, .zero)
  | 0xD0 => some (.stackTop, .notCarry)
  | 0xD8 => some (.stackTop, .carry)
  | 0xC7 | 0xCF | 0xD7 | 0xDF | 0xE7 | 0xEF | 0xF7 | 0xFF => some (.fixed (o &&& 0x38), .always)
  | _ => none

/-- Where a step goes on, given where it may lead and how many operand bytes it has: to the
destination if the condition holds, and behind the operands otherwise. -/
def Machine.pcAfter (m : Machine) (transfer? : Option (Destination × Condition)) (operands : Word) :
    Word :=
  match transfer? with
  | some (d, c) => if c.holds m.regs.flags then d.address m else m.regs.pc + 1 + operands
  | none => m.regs.pc + 1 + operands

/-! ## The tables by instruction -/

namespace Instruction

/-- How many operand bytes an instruction has. -/
def operandCount : Instruction → Word
  | .loadWord _ | .storeSp | .storeA .absolute | .loadA .absolute | .jump _ | .call _ => 2
  | .load _ .immediate | .alu _ .immediate | .jumpRelative _ | .storeA .highPage
  | .loadA .highPage | .addSpOffset | .loadHlSpOffset => 1
  | _ => 0

/-- Where an instruction may lead, and on which condition. -/
def transfer? : Instruction → Option (Destination × Condition)
  | .jumpRelative c => some (.relative, c)
  | .jump c | .call c => some (.operand, c)
  | .jumpHl => some (.hl, .always)
  | .ret c => some (.stackTop, c)
  | .retInterrupt => some (.stackTop, .always)
  | .restart v => some (.fixed v, .always)
  | _ => none

theorem operandCount_decode (o : Byte) : (decode o).operandCount = Sm83.operandCount o := by
  apply Byte.forall_of_fields (p := fun o => (decode o).operandCount = Sm83.operandCount o)
  decide

theorem transfer?_decode (o : Byte) : (decode o).transfer? = Sm83.transfer? o := by
  apply Byte.forall_of_fields (p := fun o => (decode o).transfer? = Sm83.transfer? o)
  decide

end Instruction

/-! ## The step -/

namespace Word

/-- A displacement is the signed number that the byte stands for. -/
private theorem displace_eq (w : Word) (d : Byte) :
    w.displace d = w + d.toInt8.toInt16.toUInt16 := by
  have extended : signExtend d = d.toInt8.toInt16.toUInt16 := by
    apply Byte.forall_of_fields (p := fun d => signExtend d = d.toInt8.toInt16.toUInt16)
    decide
  rw [displace, extended]

end Word

namespace Machine

theorem operandWord_eq (m : Machine) :
    m.operandWord = .ofBytes (m.memory.get (m.regs.pc + 2)) (m.memory.get (m.regs.pc + 1)) := by
  rw [operandWord, Memory.getWord, Word.add_one_add_one]

private theorem top_eq (m : Machine) : m.top = Destination.stackTop.address m := rfl

/-- A short jump counts from behind its operand, where the program counter stays one below. -/
private theorem displace_operandByte (m : Machine) :
    (m.regs.pc + 1).displace m.operandByte = Destination.relative.address m - 1 := by
  rw [Word.displace_eq, Destination.address, operandByte]
  grind

theorem pcAfter_taken {m : Machine} {c : Condition} (taken : c.holds m.regs.flags = true)
    (d : Destination) (n : Word) : m.pcAfter (some (d, c)) n = d.address m := by
  simp [pcAfter, taken]

private theorem pcAfter_untaken {m : Machine} {c : Condition}
    (untaken : ¬c.holds m.regs.flags = true) (d : Destination) (n : Word) :
    m.pcAfter (some (d, c)) n = m.regs.pc + 1 + n := by
  simp [pcAfter, untaken]

/-- The last of an instruction's bytes stands one below the next instruction. -/
private theorem pc_behind (pc n : Word) : pc + 1 + n - 1 = pc + n := by grind

/-- An instruction leaves the program counter one below where the next one is fetched. -/
theorem pc_execute (m : Machine) (i : Instruction) :
    (m.execute i).regs.pc = m.pcAfter i.transfer? i.operandCount - 1 := by
  cases i with
  | jumpRelative c =>
    by_cases taken : c.holds m.regs.flags
    · rw [Instruction.transfer?, pcAfter_taken taken, ← displace_operandByte]
      simp [execute, skip, taken]
    · rw [Instruction.transfer?, pcAfter_untaken taken]
      simp [execute, Instruction.operandCount, taken]
  | jump c | call c =>
    by_cases taken : c.holds m.regs.flags
    · rw [Instruction.transfer?, pcAfter_taken taken]
      simp [execute, taken, Destination.address, operandWord_eq]
    · rw [Instruction.transfer?, pcAfter_untaken taken, pc_behind]
      simp [execute, Instruction.operandCount, taken]
  | ret c =>
    rw [regs_execute_ret]
    by_cases taken : c.holds m.regs.flags
    · rw [Instruction.transfer?, pcAfter_taken taken]
      simp [taken, top_eq]
    · rw [Instruction.transfer?, pcAfter_untaken taken]
      simp [Instruction.operandCount, taken]
  | jumpHl | retInterrupt | restart v => rfl
  | load t s | alu op s =>
    cases s <;>
      simp [execute, pastSource, Instruction.transfer?, Instruction.operandCount, pcAfter]
  | storeA a | loadA a =>
    cases a <;>
      simp [execute, pastAddress, Instruction.transfer?, Instruction.operandCount, pcAfter,
        pc_behind]
  | _ => simp [execute, Instruction.transfer?, Instruction.operandCount, pcAfter, pc_behind]

/-- A step goes where its instruction leads. -/
theorem pc_step (m : Machine) :
    m.step.regs.pc =
      m.pcAfter (Instruction.decode m.opcode).transfer?
        (Instruction.decode m.opcode).operandCount := by
  have ticked (t : Option (Destination × Condition)) (n : Word) :
      m.tick.pcAfter t n = m.pcAfter t n := by
    rcases t with _ | ⟨d, c⟩
    · rfl
    · cases d <;> rfl
  rw [step_eq, pc_skip, pc_execute, ticked, UInt16.sub_add_cancel]

/-- **A step goes where the tables say.** The next opcode is fetched at the destination of the
transfer if the opcode has one and its condition holds, and behind the operands otherwise. -/
theorem pc_step_eq_table (m : Machine) :
    m.step.regs.pc = m.pcAfter (transfer? m.opcode) (operandCount m.opcode) := by
  rw [pc_step, Instruction.transfer?_decode, Instruction.operandCount_decode]

end Machine

end Sm83
