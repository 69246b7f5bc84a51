import Sm83.Proofs.Execution
import Sm83.Proofs.OpcodeTables

/-! How much of the extended table a step can reach. The byte that hands over to the table is looked up
there itself, and no other byte hands over. So the table is asked for one entry only, the one that sets
bit 1 of register `e`: an interpreter that knows nothing else of the table goes through the same
machines (`prefix_sets_bit`). -/
namespace Sm83.Machine

/-- Carries out an instruction, with something else in the place of the extended table. -/
def executeWith (table : Byte → Machine → Machine) (m : Machine) : Instruction → Machine
  | .extended => table m.opcode m
  | i => m.execute i

/-- Takes a step, with something else in the place of the extended table. -/
def stepWith (table : Byte → Machine → Machine) (m : Machine) : Machine :=
  (m.tick.executeWith table (.decode m.opcode)).skip 1

/-- Sets bit 1 of register `e`. -/
def setBitOfE (m : Machine) : Machine :=
  { m with regs.e := m.regs.e ||| 0x02 }

variable {table : Byte → Machine → Machine} {m : Machine}

private theorem executeWith_of_ne {i : Instruction} (other : i ≠ .extended) :
    m.executeWith table i = m.execute i := by
  cases i with
  | extended => exact absurd rfl other
  | _ => rfl

/-- Setting bit 1 of register `e` is what the prefix byte finds under its own number. -/
theorem executeExtended_eq_setBitOfE (m : Machine) : m.executeExtended 0xCB = m.setBitOfE := by
  have bit : Byte.mask 1 = 0x02 := by decide
  calc m.executeExtended 0xCB
      = m.setSlot .e (m.regs.e.setBit 1 true) := executeExtended_prefix m
    _ = m.setSlot .e (m.regs.e ||| Byte.mask 1) := by rw [Byte.setBit, if_pos rfl]
    _ = m.setBitOfE := by rw [bit]; rfl

/-- A step asks the table for the entry of the prefix byte, if it asks for one at all. -/
theorem stepWith_eq_step (same : ∀ m : Machine, table 0xCB m = m.executeExtended 0xCB) (m : Machine) :
    m.stepWith table = m.step := by
  by_cases prefixed : Instruction.decode m.opcode = .extended
  · have opcode : m.opcode = 0xCB := Instruction.eq_of_decode_extended m.opcode prefixed
    have ticked : m.tick.opcode = 0xCB := opcode
    rw [stepWith, step_eq, prefixed, executeWith, execute, ticked, same]
  · rw [stepWith, step_eq, executeWith_of_ne prefixed]

private theorem step_of_prefix (fetched : m.opcode = 0xCB) :
    m.step = (m.tick.setBitOfE).skip 1 := by
  have ticked : m.tick.opcode = 0xCB := fetched
  have decoded : Instruction.decode 0xCB = .extended := rfl
  rw [step_eq, fetched, decoded, execute, ticked, executeExtended_eq_setBitOfE]

/-- **Of the extended table a step uses one entry.** On the prefix byte it sets bit 1 of register `e`,
moves on by one byte and counts, and leaves all else as it was. In every sequence of steps the table
may therefore be replaced by that one operation, and by any table with the same entry there. -/
theorem prefix_sets_bit :
    (∀ m : Machine, m.opcode = 0xCB → m.step =
      { m with
        regs.e := m.regs.e ||| 0x02, regs.pc := m.regs.pc + 1,
        instructionCount := m.instructionCount + 1 }) ∧
    (∀ (m : Machine) (n : ℕ), step^[n] m = (stepWith fun _ => setBitOfE)^[n] m) ∧
    (∀ table : Byte → Machine → Machine, (∀ m, table 0xCB m = m.executeExtended 0xCB) →
      ∀ (m : Machine) (n : ℕ), (stepWith table)^[n] m = step^[n] m) := by
  refine ⟨?_, ?_, ?_⟩
  · intro m fetched
    exact step_of_prefix fetched
  · intro m n
    have same : (stepWith fun _ => setBitOfE) = step :=
      funext (stepWith_eq_step fun m => m.executeExtended_eq_setBitOfE.symm)
    rw [same]
  · intro table agrees m n
    have same : stepWith table = step := funext (stepWith_eq_step agrees)
    rw [same]

/-- A machine in front of the prefix byte, with the number of another entry behind it. -/
def atPrefix : Machine :=
  ofProgram ⟨#[0xCB, 0x7C]⟩

/-- An extended table with a single entry. -/
def singleEntry (o : Byte) (m : Machine) : Machine :=
  if o = 0xCB then m.executeExtended o else m

/-- The byte behind the prefix is the next opcode. -/
theorem prefix_sets_bit_atPrefix :
    atPrefix.opcode = 0xCB ∧ atPrefix.step.regs.e = 0xDA ∧ atPrefix.step.opcode = 0x7C ∧
    (∀ m, singleEntry 0xCB m = m.executeExtended 0xCB) ∧
    (stepWith singleEntry)^[2] atPrefix = step^[2] atPrefix := by
  obtain ⟨stepped, -, replaced⟩ := prefix_sets_bit
  have fetched : atPrefix.opcode = 0xCB := get_ofProgram _ 0 (by decide)
  have agrees : ∀ m, singleEntry 0xCB m = m.executeExtended 0xCB := by
    intro m
    rw [singleEntry, if_pos rfl]
  refine ⟨fetched, ?_, ?_, agrees, replaced singleEntry agrees atPrefix 2⟩
  · rw [stepped atPrefix fetched]
    decide
  · rw [stepped atPrefix fetched]
    exact get_ofProgram _ 1 (by decide)

end Sm83.Machine
