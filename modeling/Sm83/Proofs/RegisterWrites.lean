import Sm83.Proofs.StackPointer

/-! What a step does to the registers. One table gives for each opcode the registers it has for
destinations, and another the flags it may write. A step leaves every other register and every other
flag as it was, and the stack pointer too, unless it pushes, pops or sets it
(`step_writes_destinations`). -/
namespace Sm83

/-- The eight-bit registers. -/
inductive Register
  | a
  | b
  | c
  | d
  | e
  | h
  | l
deriving DecidableEq

/-- The condition flags. -/
inductive Flag
  | zero
  | carry
  | halfCarry
  | negate
deriving DecidableEq

/-- The byte in a register. -/
def Registers.byte (r : Registers) : Register → Byte
  | .a => r.a
  | .b => r.b
  | .c => r.c
  | .d => r.d
  | .e => r.e
  | .h => r.h
  | .l => r.l

/-- Whether a flag is set. -/
def Flags.get (f : Flags) : Flag → Bool
  | .zero => f.zero
  | .carry => f.carry
  | .halfCarry => f.halfCarry
  | .negate => f.negate

/-! ## The tables by opcode -/

/-- The registers that an opcode has for destinations. A comparison has none, a store moves `hl` if
its address asks for that, and the prefix byte is carried out as the extended opcode that it is. -/
def destinations (o : Byte) : List Register :=
  match o.toNat with
  | 0x04 | 0x05 | 0x06
  | 0x40 | 0x41 | 0x42 | 0x43 | 0x44 | 0x45 | 0x46 | 0x47 => [.b]
  | 0x0C | 0x0D | 0x0E
  | 0x48 | 0x49 | 0x4A | 0x4B | 0x4C | 0x4D | 0x4E | 0x4F => [.c]
  | 0x14 | 0x15 | 0x16
  | 0x50 | 0x51 | 0x52 | 0x53 | 0x54 | 0x55 | 0x56 | 0x57 => [.d]
  | 0x1C | 0x1D | 0x1E | 0xCB
  | 0x58 | 0x59 | 0x5A | 0x5B | 0x5C | 0x5D | 0x5E | 0x5F => [.e]
  | 0x24 | 0x25 | 0x26
  | 0x60 | 0x61 | 0x62 | 0x63 | 0x64 | 0x65 | 0x66 | 0x67 => [.h]
  | 0x2C | 0x2D | 0x2E
  | 0x68 | 0x69 | 0x6A | 0x6B | 0x6C | 0x6D | 0x6E | 0x6F => [.l]
  | 0x3C | 0x3D | 0x3E
  | 0x78 | 0x79 | 0x7A | 0x7B | 0x7C | 0x7D | 0x7E | 0x7F
  | 0x80 | 0x81 | 0x82 | 0x83 | 0x84 | 0x85 | 0x86 | 0x87 | 0xC6
  | 0x88 | 0x89 | 0x8A | 0x8B | 0x8C | 0x8D | 0x8E | 0x8F | 0xCE
  | 0x90 | 0x91 | 0x92 | 0x93 | 0x94 | 0x95 | 0x96 | 0x97 | 0xD6
  | 0x98 | 0x99 | 0x9A | 0x9B | 0x9C | 0x9D | 0x9E | 0x9F | 0xDE
  | 0xA0 | 0xA1 | 0xA2 | 0xA3 | 0xA4 | 0xA5 | 0xA6 | 0xA7 | 0xE6
  | 0xA8 | 0xA9 | 0xAA | 0xAB | 0xAC | 0xAD | 0xAE | 0xAF | 0xEE
  | 0xB0 | 0xB1 | 0xB2 | 0xB3 | 0xB4 | 0xB5 | 0xB6 | 0xB7 | 0xF6
  | 0x07 | 0x0F | 0x17 | 0x1F | 0x2F
  | 0x0A | 0x1A | 0xF0 | 0xF2 | 0xFA | 0xF1 => [.a]
  | 0x01 | 0x03 | 0x0B | 0xC1 => [.b, .c]
  | 0x11 | 0x13 | 0x1B | 0xD1 => [.d, .e]
  | 0x21 | 0x23 | 0x2B | 0xE1 | 0x22 | 0x32
  | 0x09 | 0x19 | 0x29 | 0x39 | 0xF8 => [.h, .l]
  | 0x2A | 0x3A => [.a, .h, .l]
  | _ => []

/-- The flags that an opcode may write. Counting a byte up or down leaves the carry alone, adding to
`hl` and setting or complementing the carry leave the zero flag alone, and the complement of the
accumulator leaves both alone. -/
def writtenFlags (o : Byte) : List Flag :=
  match o.toNat with
  | 0x04 | 0x0C | 0x14 | 0x1C | 0x24 | 0x2C | 0x34 | 0x3C
  | 0x05 | 0x0D | 0x15 | 0x1D | 0x25 | 0x2D | 0x35 | 0x3D => [.zero, .halfCarry, .negate]
  | 0x09 | 0x19 | 0x29 | 0x39 | 0x37 | 0x3F => [.carry, .halfCarry, .negate]
  | 0x2F => [.halfCarry, .negate]
  | 0x80 | 0x81 | 0x82 | 0x83 | 0x84 | 0x85 | 0x86 | 0x87 | 0xC6
  | 0x88 | 0x89 | 0x8A | 0x8B | 0x8C | 0x8D | 0x8E | 0x8F | 0xCE
  | 0x90 | 0x91 | 0x92 | 0x93 | 0x94 | 0x95 | 0x96 | 0x97 | 0xD6
  | 0x98 | 0x99 | 0x9A | 0x9B | 0x9C | 0x9D | 0x9E | 0x9F | 0xDE
  | 0xA0 | 0xA1 | 0xA2 | 0xA3 | 0xA4 | 0xA5 | 0xA6 | 0xA7 | 0xE6
  | 0xA8 | 0xA9 | 0xAA | 0xAB | 0xAC | 0xAD | 0xAE | 0xAF | 0xEE
  | 0xB0 | 0xB1 | 0xB2 | 0xB3 | 0xB4 | 0xB5 | 0xB6 | 0xB7 | 0xF6
  | 0xB8 | 0xB9 | 0xBA | 0xBB | 0xBC | 0xBD | 0xBE | 0xBF | 0xFE
  | 0x07 | 0x0F | 0x17 | 0x1F | 0xF1 => [.zero, .carry, .halfCarry, .negate]
  | _ => []

/-! ## The tables by instruction -/

/-- The registers of a slot, which are none if it lies in memory. -/
def Slot.registers : Slot → List Register
  | .b => [.b]
  | .c => [.c]
  | .d => [.d]
  | .e => [.e]
  | .h => [.h]
  | .l => [.l]
  | .atHl => []
  | .a => [.a]

/-- The eight-bit registers of a pair. -/
def Pair.registers : Pair → List Register
  | .bc => [.b, .c]
  | .de => [.d, .e]
  | .hl => [.h, .l]
  | .sp => []

/-- The eight-bit registers of a pair that is popped. -/
def StackPair.registers : StackPair → List Register
  | .bc => [.b, .c]
  | .de => [.d, .e]
  | .hl => [.h, .l]
  | .af => [.a]

/-- The registers that an address moves. -/
def Address.registers : Address → List Register
  | .hlIncrement | .hlDecrement => [.h, .l]
  | .bc | .de | .highPage | .highPageC | .absolute => []

namespace Instruction

/-- The registers that an instruction has for destinations. -/
def destinations : Instruction → List Register
  | .load t _ | .increment t | .decrement t => t.registers
  | .loadWord p | .incrementPair p | .decrementPair p => p.registers
  | .storeA a => a.registers
  | .loadA a => .a :: a.registers
  | .loadHlSpOffset | .addHl _ => [.h, .l]
  | .alu .cp _ => []
  | .alu _ _ | .rotateA _ | .complement => [.a]
  | .pop p => p.registers
  | .extended => [.e]
  | _ => []

/-- The flags that an instruction may write. -/
def writtenFlags : Instruction → List Flag
  | .alu _ _ | .rotateA _ | .pop .af => [.zero, .carry, .halfCarry, .negate]
  | .increment _ | .decrement _ => [.zero, .halfCarry, .negate]
  | .addHl _ | .setCarry | .complementCarry => [.carry, .halfCarry, .negate]
  | .complement => [.halfCarry, .negate]
  | _ => []

private theorem destinations_decode (o : Byte) : (decode o).destinations = Sm83.destinations o := by
  apply Byte.forall_of_fields (p := fun o => (decode o).destinations = Sm83.destinations o)
  decide

private theorem writtenFlags_decode (o : Byte) : (decode o).writtenFlags = Sm83.writtenFlags o := by
  apply Byte.forall_of_fields (p := fun o => (decode o).writtenFlags = Sm83.writtenFlags o)
  decide

end Instruction

/-! ## The step -/

namespace Machine

section Registers

variable (m : Machine) {x : Register}

@[simp] theorem byte_skip (n : Word) : (m.skip n).regs.byte x = m.regs.byte x := rfl

@[simp] theorem byte_jumpTo (target : Word) : (m.jumpTo target).regs.byte x = m.regs.byte x := rfl

@[simp] theorem byte_push (w : Word) : (m.push w).regs.byte x = m.regs.byte x := rfl

@[simp] theorem byte_drop : m.drop.regs.byte x = m.regs.byte x := rfl

private theorem byte_setSlot (s : Slot) (v : Byte) :
    (m.setSlot s v).regs.byte x = if x ∈ s.registers then v else m.regs.byte x := by
  cases s <;> cases x <;> rfl

private theorem byte_setSlot_of_notMem {s : Slot} (other : x ∉ s.registers) (v : Byte) :
    (m.setSlot s v).regs.byte x = m.regs.byte x := by
  rw [byte_setSlot, if_neg other]

private theorem byte_store_of_notMem {s : Slot} (other : x ∉ s.registers) (r : Alu.Result Byte) :
    (m.store s r).regs.byte x = m.regs.byte x :=
  byte_setSlot_of_notMem (m.setFlags r.flags) other r.value

private theorem byte_setPair_of_notMem {p : Pair} (other : x ∉ p.registers) (w : Word) :
    (m.setPair p w).regs.byte x = m.regs.byte x := by
  cases p <;> cases x <;> simp [Pair.registers] at other <;> rfl

theorem byte_setStackPair_of_notMem {p : StackPair} (other : x ∉ p.registers) (r : Registers)
    (w : Word) : (r.setStackPair p w).byte x = r.byte x := by
  cases p <;> cases x <;> simp [StackPair.registers] at other <;> rfl

private theorem byte_pastSource (s : Source) : (m.pastSource s).regs.byte x = m.regs.byte x := by
  cases s <;> rfl

private theorem byte_pastAddress_of_notMem {a : Address} (other : x ∉ a.registers) :
    (m.pastAddress a).regs.byte x = m.regs.byte x := by
  cases a with
  | hlIncrement | hlDecrement => exact m.byte_setPair_of_notMem (p := .hl) other _
  | _ => rfl

/-- An instruction leaves the registers alone that are no destinations of it. Where the extended table
is reached, the byte at hand is the prefix. -/
theorem byte_execute {i : Instruction} (other : x ∉ i.destinations)
    (fetched : i = .extended → m.opcode = 0xCB) :
    (m.execute i).regs.byte x = m.regs.byte x := by
  cases i with
  | load t s => exact (byte_setSlot_of_notMem _ other _).trans (m.byte_pastSource s)
  | increment s | decrement s => exact m.byte_store_of_notMem other _
  | loadWord p | incrementPair p | decrementPair p => exact byte_setPair_of_notMem _ other _
  | loadHlSpOffset => exact byte_setPair_of_notMem _ (p := .hl) other _
  | addHl p => exact byte_setPair_of_notMem _ (p := .hl) other _
  | copyHlToSp | addSpOffset => rfl
  | storeA a => exact m.byte_pastAddress_of_notMem other
  | loadA a =>
    rw [Instruction.destinations, List.mem_cons, not_or] at other
    have kept : x ∉ Slot.a.registers := fun member => other.1 (List.mem_singleton.mp member)
    exact (byte_setSlot_of_notMem _ kept _).trans (m.byte_pastAddress_of_notMem other.2)
  | alu op s =>
    cases op with
    | cp => cases s <;> cases x <;> rfl
    | _ => exact (byte_store_of_notMem _ other _).trans (m.byte_pastSource s)
  | rotateA r | complement => exact m.byte_store_of_notMem other _
  | jumpRelative c =>
    by_cases taken : c.holds m.regs.flags <;> simp only [execute, flags_skip, taken] <;> rfl
  | jump c | call c => by_cases taken : c.holds m.regs.flags <;> simp [execute, taken]
  | ret c =>
    rw [regs_execute_ret]
    split <;> simp
  | retInterrupt => exact (byte_jumpTo _ _).trans m.byte_drop
  | restart v => exact (byte_jumpTo _ _).trans (m.byte_push _)
  | push p => exact m.byte_push _
  | pop p => exact byte_setStackPair_of_notMem other _ _
  | extended =>
    rw [execute, fetched rfl, executeExtended_prefix]
    exact m.byte_setSlot_of_notMem other _
  | _ => rfl

end Registers

section Flags

variable (m : Machine)

/-- An instruction leaves the flags alone that it does not write. -/
theorem get_flags_execute {i : Instruction} {f : Flag} (other : f ∉ i.writtenFlags)
    (fetched : i = .extended → m.opcode = 0xCB) :
    (m.execute i).regs.flags.get f = m.regs.flags.get f := by
  cases i with
  | alu op s | rotateA r => cases f <;> simp [Instruction.writtenFlags] at other
  | increment s | decrement s =>
    cases f <;> simp [Instruction.writtenFlags] at other
    exact (congrArg Flags.carry (m.flags_store s _)).trans rfl
  | addHl p | setCarry | complementCarry | complement =>
    cases f <;> simp [Instruction.writtenFlags] at other <;> rfl
  | pop p =>
    cases p with
    | af => cases f <;> simp [Instruction.writtenFlags] at other
    | bc | de | hl => rfl
  | load t s =>
    exact congrArg (Flags.get · f) ((flags_setSlot _ t _).trans (m.flags_pastSource s))
  | loadWord p | incrementPair p | decrementPair p =>
    exact congrArg (Flags.get · f) (flags_setPair _ p _)
  | storeA a => exact congrArg (Flags.get · f) (m.flags_pastAddress a)
  | loadA a =>
    exact congrArg (Flags.get · f) ((flags_setSlot _ .a _).trans (m.flags_pastAddress a))
  | jumpRelative c =>
    by_cases taken : c.holds m.regs.flags <;> simp only [execute, flags_skip, taken] <;> rfl
  | jump c | call c => by_cases taken : c.holds m.regs.flags <;> simp [execute, taken]
  | ret c =>
    rw [regs_execute_ret]
    split <;> simp
  | extended =>
    rw [execute, fetched rfl, executeExtended_prefix]
    exact congrArg (Flags.get · f) (m.flags_setSlot .e _)
  | _ => rfl

end Flags

/-- **A step writes only the registers its tables name.** Besides the program counter it changes no
register that is no destination of its opcode, it leaves the stack pointer alone unless it pushes,
pops or fetches one of the five opcodes that set it, and it changes no flag that its opcode does not
write. -/
theorem step_writes_destinations (m : Machine) :
    (∀ x ∉ destinations m.opcode, m.step.regs.byte x = m.regs.byte x) ∧
    (m.opcode ∉ stackPointerOpcodes → m.pushes = false → m.pops = false →
      m.step.regs.sp = m.regs.sp) ∧
    ∀ f ∉ writtenFlags m.opcode, m.step.regs.flags.get f = m.regs.flags.get f := by
  have fetched : Instruction.decode m.opcode = .extended → m.tick.opcode = 0xCB :=
    Instruction.eq_of_decode_extended m.opcode
  refine ⟨?_, ?_, ?_⟩
  · intro x other
    rw [← Instruction.destinations_decode] at other
    rw [step_eq, byte_skip]
    exact m.tick.byte_execute other fetched
  · intro kept unpushed unpopped
    rw [sp_step kept, unpushed, unpopped]
    rfl
  · intro f other
    rw [← Instruction.writtenFlags_decode] at other
    rw [step_eq, flags_skip]
    exact m.tick.get_flags_execute other fetched

/-- A machine in front of a count of register `c`. -/
def atIncrement : Machine :=
  ofProgram ⟨#[0x0C]⟩

theorem step_writes_destinations_atIncrement :
    Register.b ∉ destinations atIncrement.opcode ∧ Flag.carry ∉ writtenFlags atIncrement.opcode ∧
    atIncrement.opcode ∉ stackPointerOpcodes ∧
    atIncrement.pushes = false ∧ atIncrement.pops = false ∧
    atIncrement.step.regs.b = 0x00 ∧ atIncrement.step.regs.sp = 0xFFFE ∧
    atIncrement.step.regs.flags.carry = false := by
  have opcode : atIncrement.opcode = 0x0C := get_ofProgram _ 0 (by decide)
  have unpushed : atIncrement.pushes = false :=
    congrArg (fun o => atIncrement.pushing (store? o)) opcode
  have unpopped : atIncrement.pops = false :=
    congrArg (fun o => atIncrement.popping (load? o)) opcode
  obtain ⟨bytes, sp, flags⟩ := step_writes_destinations atIncrement
  rw [opcode] at bytes sp flags
  rw [opcode]
  refine ⟨by decide, by decide, by decide, unpushed, unpopped, ?_, ?_, ?_⟩
  · exact bytes .b (by decide)
  · exact sp (by decide) unpushed unpopped
  · exact flags .carry (by decide)

end Machine

end Sm83
