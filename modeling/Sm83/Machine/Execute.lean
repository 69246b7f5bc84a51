import Sm83.Instruction.Decode
import Sm83.Machine.Basic

/-!
What each instruction does, and the step that fetches, decodes and executes one.

Every operand is read from the machine as the instruction found it. A call whose return address lands
on its own operand bytes still goes where they pointed before.
-/

namespace Sm83

/-- Whether a return on this condition clears the interrupt latch, taken or not. -/
def Condition.dropsInterrupts : Condition → Bool
  | .zero | .carry => true
  | .always | .notZero | .notCarry => false

namespace Machine

/-- Carries out an opcode of the extended table. -/
def executeExtended (m : Machine) (opcode : Byte) : Machine :=
  let s := Slot.ofOpcode opcode
  match Extended.decode opcode with
  | .shift f => m.store s (f.apply (m.slot s) m.regs.flags)
  | .testBit i => m.setFlags (Alu.testBit (m.slot s) i m.regs.flags)
  | .setBit i on => m.setSlot s ((m.slot s).setBit i on)

/-- Carries out an instruction, leaving the program counter on its last byte, or one below the target
of a jump. -/
def execute (m : Machine) (i : Instruction) : Machine :=
  match i with
  | .nop => m
  | .stop => { m with running := false }
  | .load t s =>
    let v := m.source s
    (m.pastSource s).setSlot t v
  | .loadWord p =>
    let w := m.operandWord
    (m.skip 2).setPair p w
  | .storeA a =>
    let target := m.address a
    let n := m.pastAddress a
    n.write target n.regs.a
  | .loadA a =>
    let v := m.memory.get (m.address a)
    (m.pastAddress a).setSlot .a v
  | .storeSp =>
    let target := m.operandWord
    let n := m.skip 2
    n.writeWord target n.regs.sp
  | .copyHlToSp => m.setPair .sp m.regs.hl
  | .loadHlSpOffset =>
    let d := m.operandByte
    (m.skip 1).setPair .hl (m.regs.sp.displace d)
  | .addSpOffset =>
    let d := m.operandByte
    (m.skip 1).setPair .sp (m.regs.sp.displace d)
  | .alu op s =>
    let v := m.source s
    (m.pastSource s).store .a (op.apply m.regs.a v m.regs.flags)
  | .increment s => m.store s (Alu.increment (m.slot s) m.regs.flags)
  | .decrement s => m.store s (Alu.decrement (m.slot s) m.regs.flags)
  | .incrementPair p => m.setPair p (m.regs.pair p + 1)
  | .decrementPair p => m.setPair p (m.regs.pair p - 1)
  | .addHl p =>
    let r := Alu.addWord m.regs.hl (m.regs.pair p) m.regs.flags
    (m.setFlags r.flags).setPair .hl (.ofNat r.value)
  | .rotateA r => m.store .a ((Shift.rotate r).apply m.regs.a m.regs.flags)
  | .decimalAdjust =>
    { m with running := false, lastDiagnostic := some (.unimplemented 0x27 m.regs.pc) }
  | .complement =>
    m.store .a ⟨~~~ m.regs.a, { m.regs.flags with halfCarry := true, negate := true }⟩
  | .setCarry =>
    m.setFlags { m.regs.flags with carry := true, halfCarry := false, negate := false }
  | .complementCarry =>
    m.setFlags { m.regs.flags with carry := !m.regs.flags.carry, halfCarry := false, negate := false }
  | .jumpRelative c =>
    let d := m.operandByte
    let n := m.skip 1
    if c.holds n.regs.flags then { n with regs.pc := n.regs.pc.displace d } else n
  | .jump c =>
    let target := m.operandWord
    let n := m.skip 2
    if c.holds n.regs.flags then n.jumpTo target else n
  | .jumpHl => m.jumpTo m.regs.hl
  | .call c =>
    let target := m.operandWord
    let n := m.skip 2
    if c.holds n.regs.flags then (n.push n.nextAddress).jumpTo target else n
  | .ret c =>
    let n := if c.holds m.regs.flags then m.drop.jumpTo m.top else m
    if c.dropsInterrupts then { n with interruptsEnabled := false } else n
  | .retInterrupt => { m.drop.jumpTo m.top with interruptsEnabled := true }
  | .restart v =>
    { (m.push m.nextAddress).jumpTo v.toUInt16 with interruptsEnabled := false }
  | .push p => m.push (m.regs.stackPair p)
  | .pop p =>
    let n := m.drop
    { n with regs := n.regs.setStackPair p m.top }
  | .disableInterrupts => { m with interruptsEnabled := false }
  | .enableInterrupts => { m with interruptsEnabled := true }
  | .extended => m.executeExtended m.opcode
  | .undefined opcode => { m with lastDiagnostic := some (.illegal opcode m.regs.pc) }

/-- Counts one instruction. -/
def tick (m : Machine) : Machine :=
  { m with instructionCount := m.instructionCount + 1 }

/-- Normalizes the flags, and then fetches, decodes and executes one instruction; a halted machine
steps like a running one. -/
def step (m : Machine) : Machine :=
  let n := m.normalize
  (n.tick.execute (.decode n.opcode)).skip 1

/-- An instruction is fetched from the machine as it stands. -/
theorem step_eq (m : Machine) : m.step = (m.tick.execute (.decode m.opcode)).skip 1 := by
  simp only [step, normalize_eq]

end Machine

end Sm83
