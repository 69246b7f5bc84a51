import Sm83.Proofs.Execution
import Sm83.Proofs.ExtendedOperations

/-! Work that more than one encoding does. Some instructions do at once what two others do in a row, and
are the same as these on every machine (`execute_parts`). The rotations of the accumulator stand in both
opcode tables, under the same numbers. An operand byte may stand behind the opcode or in a slot, and a
cell of the last page may be numbered by either, so two such instructions agree where they name the same
byte, except that the one behind the opcode has to be skipped (`encodings_agree`). -/
namespace Sm83

namespace Instruction

/-- The instructions that one instruction does at once, in the order that it does them in. Most do a
single thing. -/
def parts : Instruction → List Instruction
  | .storeA .hlIncrement => [.load .atHl (.slot .a), .incrementPair .hl]
  | .storeA .hlDecrement => [.load .atHl (.slot .a), .decrementPair .hl]
  | .loadA .hlIncrement => [.load .a (.slot .atHl), .incrementPair .hl]
  | .loadA .hlDecrement => [.load .a (.slot .atHl), .decrementPair .hl]
  | .retInterrupt => [.ret .always, .enableInterrupts]
  | i => [i]

/-- The number of a rotation of the accumulator is the same in both tables. -/
private theorem decode_opcode_rotate (r : Rotate) :
    decode (Extended.opcode .a (.shift (.rotate r))) = .rotateA r := by
  cases r <;> rfl

end Instruction

/-- The numbers of the rotations of the accumulator. -/
def rotateOpcodes : List Byte :=
  [0x07, 0x0F, 0x17, 0x1F]

private theorem rotateOpcodes_eq :
    rotateOpcodes =
      [.rlc, .rrc, .rl, .rr].map fun r => Extended.opcode .a (.shift (.rotate r)) := by
  decide

namespace Machine

variable (m : Machine)

/-! ## Instructions in a row -/

/-- Carries out instructions one after the other, without fetching them. -/
def perform (is : List Instruction) : Machine :=
  is.foldl execute m

/-- An instruction is its parts in a row. -/
theorem execute_parts (i : Instruction) : m.execute i = m.perform i.parts := by
  cases i with
  | storeA a | loadA a => cases a <;> rfl
  | _ => rfl

/-- To put the displaced stack pointer into `hl` and copy it back is to displace it in its place, except
that `hl` holds it, too. -/
theorem perform_displaced :
    m.perform [.loadHlSpOffset, .copyHlToSp] =
      (m.execute .addSpOffset).setPair .hl (m.regs.sp.displace m.operandByte) := by
  let displaced := m.regs.sp.displace m.operandByte
  let n := (m.skip 1).setPair .hl displaced
  have copied : n.regs.hl = displaced := Registers.pair_setPair _ .hl displaced
  calc m.perform [.loadHlSpOffset, .copyHlToSp]
      = n.setPair .sp n.regs.hl := rfl
    _ = n.setPair .sp displaced := by rw [copied]
    _ = (m.execute .addSpOffset).setPair .hl displaced := rfl

/-! ## Two tables -/

private theorem execute_rotate {o : Byte} (member : o ∈ rotateOpcodes) :
    m.execute (.decode o) = m.executeExtended o := by
  rw [rotateOpcodes_eq] at member
  obtain ⟨r, -, rfl⟩ := List.mem_map.mp member
  rw [Instruction.decode_opcode_rotate, executeExtended_shift]
  rfl

/-! ## Operands in different places -/

private theorem execute_immediate (op : Alu.Op) {s : Slot} (same : m.slot s = m.operandByte) :
    m.execute (.alu op .immediate) = (m.execute (.alu op (.slot s))).skip 1 := by
  calc m.execute (.alu op .immediate)
      = (m.skip 1).store .a (op.apply m.regs.a m.operandByte m.regs.flags) := rfl
    _ = (m.skip 1).store .a (op.apply m.regs.a (m.slot s) m.regs.flags) := by rw [same]
    _ = (m.execute (.alu op (.slot s))).skip 1 := rfl

/-- A comparison is a subtraction after which the accumulator is put back. -/
theorem execute_compare (s : Source) :
    m.execute (.alu .cp s) = (m.execute (.alu .sub s)).setSlot .a m.regs.a := by
  let r := Alu.Op.sub.apply m.regs.a (m.source s) m.regs.flags
  calc m.execute (.alu .cp s)
      = ((m.pastSource s).setFlags r.flags).setSlot .a m.regs.a := rfl
    _ = ((m.pastSource s).store .a r).setSlot .a m.regs.a := (setSlot_setSlot _ .a r.value _).symm
    _ = (m.execute (.alu .sub s)).setSlot .a m.regs.a := rfl

private theorem address_highPage (same : m.regs.c = m.operandByte) :
    m.address .highPage = m.address .highPageC := by
  rw [address, address, same]

private theorem execute_storeA_highPage (same : m.regs.c = m.operandByte) :
    m.execute (.storeA .highPage) = (m.execute (.storeA .highPageC)).skip 1 := by
  calc m.execute (.storeA .highPage)
      = (m.skip 1).write (m.address .highPage) m.regs.a := rfl
    _ = (m.skip 1).write (m.address .highPageC) m.regs.a := by rw [m.address_highPage same]
    _ = (m.execute (.storeA .highPageC)).skip 1 := rfl

private theorem execute_loadA_highPage (same : m.regs.c = m.operandByte) :
    m.execute (.loadA .highPage) = (m.execute (.loadA .highPageC)).skip 1 := by
  calc m.execute (.loadA .highPage)
      = (m.skip 1).setSlot .a (m.memory.get (m.address .highPage)) := rfl
    _ = (m.skip 1).setSlot .a (m.memory.get (m.address .highPageC)) := by
      rw [m.address_highPage same]
    _ = (m.execute (.loadA .highPageC)).skip 1 := rfl

/-- The encodings that come to the same machine, registers, flags, memory and latches. -/
structure EncodingsAgree (m : Machine) : Prop where
  /-- Storing or loading at an address that moves is doing it at `hl` and moving `hl`, and a return
  that enables interrupts is a return and then their enabling. -/
  parts : ∀ i, m.execute i = m.perform i.parts
  rotate : ∀ o ∈ rotateOpcodes, m.execute (.decode o) = m.executeExtended o
  /-- The byte behind the opcode does what a slot does that holds the same byte. -/
  immediate : ∀ op s, m.slot s = m.operandByte →
    m.execute (.alu op .immediate) = (m.execute (.alu op (.slot s))).skip 1
  compare : ∀ s, m.execute (.alu .cp s) = (m.execute (.alu .sub s)).setSlot .a m.regs.a
  storeHigh : m.regs.c = m.operandByte →
    m.execute (.storeA .highPage) = (m.execute (.storeA .highPageC)).skip 1
  loadHigh : m.regs.c = m.operandByte →
    m.execute (.loadA .highPage) = (m.execute (.loadA .highPageC)).skip 1
  displaced : m.perform [.loadHlSpOffset, .copyHlToSp] =
    (m.execute .addSpOffset).setPair .hl (m.regs.sp.displace m.operandByte)

/-- **Encodings of the same work agree on every machine.** What one instruction does at once others do
in a row, what both tables hold is the same in both, and what a byte behind the opcode stands for can
stand in a slot, apart from that byte being skipped. -/
theorem encodings_agree (m : Machine) : m.EncodingsAgree where
  parts := m.execute_parts
  rotate _ := m.execute_rotate
  immediate op _ := m.execute_immediate op
  compare := m.execute_compare
  storeHigh := m.execute_storeA_highPage
  loadHigh := m.execute_loadA_highPage
  displaced := m.perform_displaced

/-- A machine in front of an addition of the byte that register `c` holds. -/
def atAddition : Machine :=
  ofProgram ⟨#[0xC6, 0x13]⟩

theorem encodings_agree_atAddition :
    atAddition.regs.c = atAddition.operandByte ∧ atAddition.slot .c = atAddition.operandByte ∧
    (atAddition.execute (.alu .add .immediate)).regs.a = 0x14 ∧
    (atAddition.execute (.storeA .highPage)).memory.get 0xFF13 = 0x01 ∧
    atAddition.execute (.loadA .highPage) = (atAddition.execute (.loadA .highPageC)).skip 1 := by
  have behind : atAddition.operandByte = 0x13 := get_ofProgram _ 1 (by decide)
  have agree := encodings_agree atAddition
  refine ⟨behind.symm, behind.symm, ?_, ?_, agree.loadHigh behind.symm⟩
  · rw [agree.immediate .add .c behind.symm]
    decide
  · rw [agree.storeHigh behind.symm]
    exact Memory.get_set_self _ _ _

end Machine

end Sm83
