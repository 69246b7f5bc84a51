import Sm83.Machine.Execute

/-! What each update of a machine does to the program counter, to memory and to the latches. The
laws of the step read these off one instruction at a time, so that no later proof opens an update. -/
namespace Sm83

namespace Slot

/-- Whether writing a slot moves `hl`, and with it the slot that `hl` points at. -/
def movesHl : Slot → Bool
  | .h | .l => true
  | .b | .c | .d | .e | .atHl | .a => false

/-- Slots of which writing one does not touch the other: they differ, and neither of them moves the
other. -/
structure Apart (r s : Slot) : Prop where
  ne : r ≠ s
  left : r = .atHl → s.movesHl = false
  right : s = .atHl → r.movesHl = false

end Slot

/-! ## Addresses next to each other -/

namespace Word

theorem add_one_add_one (w : Word) : w + 1 + 1 = w + 2 := by grind

theorem sub_one_sub_one (w : Word) : w - 1 - 1 = w - 2 := by grind

theorem sub_two_add_one (w : Word) : w - 2 + 1 = w - 1 := by grind

theorem sub_one_ne_sub_two (w : Word) : w - 1 ≠ w - 2 := by grind

end Word

namespace Machine

/-- The part of a machine that is neither registers nor memory. -/
structure Latches where
  running : Bool
  interruptsEnabled : Bool
  instructionCount : UInt64
  lastDiagnostic : Option Diagnostic

/-- The latches of a machine. -/
def latches (m : Machine) : Latches where
  running := m.running
  interruptsEnabled := m.interruptsEnabled
  instructionCount := m.instructionCount
  lastDiagnostic := m.lastDiagnostic

/-- A machine is its registers, its memory and its latches. -/
theorem ext_parts {m n : Machine} (regs : m.regs = n.regs) (memory : m.memory = n.memory)
    (latches : m.latches = n.latches) : m = n := by
  obtain ⟨_, _, _, _, _, _⟩ := m
  obtain ⟨_, _, _, _, _, _⟩ := n
  cases regs
  cases memory
  cases latches
  rfl

variable (m : Machine)

/-! ## The program counter -/

@[simp] theorem pc_write (a : Word) (v : Byte) : (m.write a v).regs.pc = m.regs.pc := rfl

@[simp] theorem pc_writeWord (a w : Word) : (m.writeWord a w).regs.pc = m.regs.pc := rfl

@[simp] theorem pc_setFlags (f : Flags) : (m.setFlags f).regs.pc = m.regs.pc := rfl

@[simp] theorem pc_skip (n : Word) : (m.skip n).regs.pc = m.regs.pc + n := rfl

@[simp] theorem pc_jumpTo (target : Word) : (m.jumpTo target).regs.pc = target - 1 := rfl

@[simp] theorem pc_push (w : Word) : (m.push w).regs.pc = m.regs.pc := rfl

@[simp] theorem pc_drop : m.drop.regs.pc = m.regs.pc := rfl

@[simp] theorem pc_setSlot (s : Slot) (v : Byte) : (m.setSlot s v).regs.pc = m.regs.pc := by
  cases s <;> rfl

@[simp] theorem pc_setPair (p : Pair) (w : Word) : (m.setPair p w).regs.pc = m.regs.pc := by
  cases p <;> rfl

@[simp] theorem pc_setStackPair (r : Registers) (p : StackPair) (w : Word) :
    (r.setStackPair p w).pc = r.pc := by
  cases p <;> rfl

@[simp] theorem pc_store (s : Slot) (r : Alu.Result Byte) : (m.store s r).regs.pc = m.regs.pc := by
  simp [store]

@[simp] theorem pc_executeExtended (o : Byte) : (m.executeExtended o).regs.pc = m.regs.pc := by
  unfold executeExtended
  cases Extended.decode o <;> simp

theorem skip_zero : m.skip 0 = m := by
  simp only [skip, UInt16.add_zero]

theorem skip_skip (n k : Word) : (m.skip n).skip k = m.skip (n + k) := by
  simp only [skip, UInt16.add_assoc]

/-! ## The stack pointer and the flags -/

@[simp] theorem sp_write (a : Word) (v : Byte) : (m.write a v).regs.sp = m.regs.sp := rfl

@[simp] theorem sp_writeWord (a w : Word) : (m.writeWord a w).regs.sp = m.regs.sp := rfl

@[simp] theorem sp_setFlags (f : Flags) : (m.setFlags f).regs.sp = m.regs.sp := rfl

@[simp] theorem sp_skip (n : Word) : (m.skip n).regs.sp = m.regs.sp := rfl

@[simp] theorem sp_jumpTo (target : Word) : (m.jumpTo target).regs.sp = m.regs.sp := rfl

@[simp] theorem sp_push (w : Word) : (m.push w).regs.sp = m.regs.sp - 2 :=
  m.regs.sp.sub_one_sub_one

@[simp] theorem sp_drop : m.drop.regs.sp = m.regs.sp + 2 :=
  m.regs.sp.add_one_add_one

@[simp] theorem sp_setSlot (s : Slot) (v : Byte) : (m.setSlot s v).regs.sp = m.regs.sp := by
  cases s <;> rfl

@[simp] theorem sp_setPair (p : Pair) (w : Word) :
    (m.setPair p w).regs.sp = if p = .sp then w else m.regs.sp := by
  cases p <;> rfl

@[simp] theorem sp_setStackPair (r : Registers) (p : StackPair) (w : Word) :
    (r.setStackPair p w).sp = r.sp := by
  cases p <;> rfl

@[simp] theorem sp_store (s : Slot) (r : Alu.Result Byte) : (m.store s r).regs.sp = m.regs.sp := by
  simp [store]

@[simp] theorem sp_pastSource (s : Source) : (m.pastSource s).regs.sp = m.regs.sp := by
  cases s <;> rfl

@[simp] theorem sp_pastAddress (a : Address) : (m.pastAddress a).regs.sp = m.regs.sp := by
  cases a <;> rfl

@[simp] theorem sp_executeExtended (o : Byte) : (m.executeExtended o).regs.sp = m.regs.sp := by
  unfold executeExtended
  cases Extended.decode o <;> simp

@[simp] theorem flags_skip (n : Word) : (m.skip n).regs.flags = m.regs.flags := rfl

@[simp] theorem flags_jumpTo (target : Word) : (m.jumpTo target).regs.flags = m.regs.flags := rfl

@[simp] theorem flags_push (w : Word) : (m.push w).regs.flags = m.regs.flags := rfl

@[simp] theorem flags_drop : m.drop.regs.flags = m.regs.flags := rfl

theorem flags_setSlot (s : Slot) (v : Byte) : (m.setSlot s v).regs.flags = m.regs.flags := by
  cases s <;> rfl

theorem flags_store (s : Slot) (r : Alu.Result Byte) : (m.store s r).regs.flags = r.flags :=
  flags_setSlot (m.setFlags r.flags) s r.value

theorem flags_setPair (p : Pair) (w : Word) : (m.setPair p w).regs.flags = m.regs.flags := by
  cases p <;> rfl

theorem flags_pastSource (s : Source) : (m.pastSource s).regs.flags = m.regs.flags := by
  cases s <;> rfl

theorem flags_pastAddress (a : Address) : (m.pastAddress a).regs.flags = m.regs.flags := by
  cases a <;> rfl

/-! ## Memory -/

@[simp] theorem memory_write (a : Word) (v : Byte) : (m.write a v).memory = m.memory.set a v := rfl

@[simp] theorem memory_writeWord (a w : Word) :
    (m.writeWord a w).memory = (m.memory.set a w.low).set (a + 1) w.high := rfl

@[simp] theorem memory_setFlags (f : Flags) : (m.setFlags f).memory = m.memory := rfl

@[simp] theorem memory_skip (n : Word) : (m.skip n).memory = m.memory := rfl

@[simp] theorem memory_jumpTo (target : Word) : (m.jumpTo target).memory = m.memory := rfl

@[simp] theorem memory_drop : m.drop.memory = m.memory := rfl

@[simp] theorem memory_tick : m.tick.memory = m.memory := rfl

@[simp] theorem memory_setPair (p : Pair) (w : Word) : (m.setPair p w).memory = m.memory := rfl

/-- The high byte of a pushed word lies above the low one. -/
@[simp] theorem memory_push (w : Word) :
    (m.push w).memory = (m.memory.set (m.regs.sp - 1) w.high).set (m.regs.sp - 2) w.low := by
  simp [push, pushByte, Word.sub_one_sub_one]

/-- Only the slot that `hl` points at lies in memory. -/
@[simp] theorem memory_setSlot (s : Slot) (v : Byte) :
    (m.setSlot s v).memory = if s = .atHl then m.memory.set m.regs.hl v else m.memory := by
  cases s <;> rfl

@[simp] theorem memory_store (s : Slot) (r : Alu.Result Byte) :
    (m.store s r).memory = if s = .atHl then m.memory.set m.regs.hl r.value else m.memory := by
  simp [store, setFlags, Registers.hl]

@[simp] theorem memory_pastSource (s : Source) : (m.pastSource s).memory = m.memory := by
  cases s <;> rfl

@[simp] theorem memory_pastAddress (a : Address) : (m.pastAddress a).memory = m.memory := by
  cases a <;> rfl

/-! ## Slots -/

theorem slot_setSlot (r : Slot) (v : Byte) : (m.setSlot r v).slot r = v := by
  cases r with
  | atHl => exact m.memory.get_set_self m.regs.hl v
  | _ => rfl

/-- Writing back what a slot holds changes nothing. -/
theorem setSlot_slot (r : Slot) : m.setSlot r (m.slot r) = m := by
  cases r with
  | atHl => exact congrArg (fun memory => { m with memory }) (m.memory.set_get m.regs.hl)
  | _ => rfl

/-- The last write to a slot is the one that counts. -/
theorem setSlot_setSlot (r : Slot) (v w : Byte) : (m.setSlot r v).setSlot r w = m.setSlot r w := by
  cases r with
  | atHl => exact congrArg (fun memory => { m with memory }) (m.memory.set_set m.regs.hl v w)
  | _ => rfl

/-- A write to another slot is not read, unless it moves the slot that is read. -/
theorem slot_setSlot_of_ne {r s : Slot} (other : r ≠ s) (still : r = .atHl → s.movesHl = false)
    (v : Byte) : (m.setSlot s v).slot r = m.slot r := by
  cases r with
  | atHl =>
    cases s with
    | h | l => cases still rfl
    | atHl => exact absurd rfl other
    | _ => rfl
  | _ => cases s <;> first | exact absurd rfl other | rfl

/-- Writes to slots that are apart commute. -/
theorem setSlot_comm {r s : Slot} (apart : r.Apart s) (v w : Byte) :
    (m.setSlot r v).setSlot s w = (m.setSlot s w).setSlot r v := by
  obtain ⟨other, left, right⟩ := apart
  cases r with
  | atHl =>
    cases s with
    | h | l => cases left rfl
    | atHl => exact absurd rfl other
    | _ => rfl
  | h | l =>
    cases s with
    | atHl => cases right rfl
    | _ => first | exact absurd rfl other | rfl
  | _ => cases s <;> first | exact absurd rfl other | rfl

theorem slot_store (r : Slot) (x : Alu.Result Byte) : (m.store r x).slot r = x.value :=
  slot_setSlot (m.setFlags x.flags) r x.value

theorem slot_skip (r : Slot) (n : Word) : (m.skip n).slot r = m.slot r := by
  cases r <;> rfl

/-- What was in a slot before, and what the flags were, does not matter any more. -/
theorem store_store (r : Slot) (x y : Alu.Result Byte) : (m.store r x).store r y = m.store r y := by
  cases r with
  | atHl =>
    have cell := m.memory.set_set m.regs.hl x.value y.value
    exact congrArg (fun memory => { m.setFlags y.flags with memory }) cell
  | _ => rfl

/-! ## The latches -/

@[simp] theorem latches_setFlags (f : Flags) : (m.setFlags f).latches = m.latches := rfl

@[simp] theorem latches_skip (n : Word) : (m.skip n).latches = m.latches := rfl

@[simp] theorem latches_jumpTo (target : Word) : (m.jumpTo target).latches = m.latches := rfl

@[simp] theorem latches_push (w : Word) : (m.push w).latches = m.latches := rfl

@[simp] theorem latches_drop : m.drop.latches = m.latches := rfl

@[simp] theorem latches_setSlot (s : Slot) (v : Byte) : (m.setSlot s v).latches = m.latches := by
  cases s <;> rfl

@[simp] theorem latches_store (s : Slot) (r : Alu.Result Byte) :
    (m.store s r).latches = m.latches := by
  simp [store]

@[simp] theorem latches_pastSource (s : Source) : (m.pastSource s).latches = m.latches := by
  cases s <;> rfl

@[simp] theorem latches_pastAddress (a : Address) : (m.pastAddress a).latches = m.latches := by
  cases a <;> rfl

@[simp] theorem latches_executeExtended (o : Byte) : (m.executeExtended o).latches = m.latches := by
  unfold executeExtended
  cases Extended.decode o <;> simp

/-! ## Returns

A return that drops interrupts does so whether or not it is taken, and moves nothing by it. -/

theorem regs_execute_ret (c : Condition) :
    (m.execute (.ret c)).regs =
      (if c.holds m.regs.flags then m.drop.jumpTo m.top else m).regs := by
  simp only [execute]
  split <;> split <;> rfl

theorem memory_execute_ret (c : Condition) : (m.execute (.ret c)).memory = m.memory := by
  simp only [execute]
  split <;> split <;> rfl

theorem latches_execute_ret (c : Condition) :
    (m.execute (.ret c)).latches =
      if c.dropsInterrupts then { m.latches with interruptsEnabled := false } else m.latches := by
  simp only [execute]
  split <;> split <;> rfl

end Machine

end Sm83
