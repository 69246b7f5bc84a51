import Mathlib.Data.List.Induction
import Sm83.Proofs.Execution
import Sm83.Proofs.ExtendedOperations

/-! Sequences of opcodes that set and clear bits. Each of them writes one bit of one slot, so after any
number of them a bit is what the last one that names it made of it (`bit_executeAll`), and two of them
in a row may change places unless they name the same bit (`last_write_counts`). What stands in the way
is that a write to a half of `hl` moves the slot in memory. After one the slot is another cell, which no
opcode has written (`moved_slot_escapes`). -/
namespace Sm83

/-! ## Opcodes -/

/-- Whether an opcode names a bit of a slot. -/
def names (r : Slot) (i : Fin 8) (o : Byte) : Bool :=
  decide (Slot.ofOpcode o = r ∧ o.middle = i)

/-- What the last opcode that names a bit makes of it: the upper half of them set it. -/
def lastWrite (ops : List Byte) (r : Slot) (i : Fin 8) : Option Bool :=
  (ops.filter (names r i)).getLast?.map fun o => decide (0xC0 ≤ o)

/-- No opcode works on the slot in memory, or none moves it. -/
def Separate (ops : List Byte) : Prop :=
  (∀ o ∈ ops, Slot.ofOpcode o ≠ .atHl) ∨ ∀ o ∈ ops, (Slot.ofOpcode o).movesHl = false

theorem Separate.apart {o p : Byte} {ops : List Byte} (separate : Separate ops) (first : o ∈ ops)
    (second : p ∈ ops) (other : Slot.ofOpcode o ≠ Slot.ofOpcode p) :
    (Slot.ofOpcode o).Apart (.ofOpcode p) := by
  rcases separate with absent | still
  · exact ⟨other, fun atHl => absurd atHl (absent o first), fun atHl => absurd atHl (absent p second)⟩
  · exact ⟨other, fun _ => still p second, fun _ => still o first⟩

/-- The upper half of the table assigns a bit, and its own upper half sets it. -/
private theorem Extended.decode_of_le {o : Byte} :
    0x80 ≤ o → decode o = .setBit o.middle (decide (0xC0 ≤ o)) := by
  apply Byte.forall_of_fields (p := fun o =>
    0x80 ≤ o → decode o = .setBit o.middle (decide (0xC0 ≤ o)))
  decide

private theorem lastWrite_concat (ops : List Byte) (o : Byte) (r : Slot) (i : Fin 8) :
    lastWrite (ops ++ [o]) r i =
      if names r i o then some (decide (0xC0 ≤ o)) else lastWrite ops r i := by
  unfold lastWrite
  rw [List.filter_append]
  by_cases named : names r i o <;> simp [named]

private theorem Byte.setBit_comm (v : Byte) {i j : Fin 8} (other : i ≠ j) (on off : Bool) :
    (v.setBit i on).setBit j off = (v.setBit j off).setBit i on := by
  apply Byte.ext_bit
  intro k
  simp only [Byte.bit_setBit]
  split
  · next last =>
    subst last
    rw [if_neg other]
  · rfl

namespace Machine

variable (m : Machine) {o p : Byte} {ops : List Byte} {r : Slot}

/-! ## One opcode -/

private theorem executeExtended_assigning (assigning : 0x80 ≤ o) :
    m.executeExtended o =
      m.setSlot (.ofOpcode o) ((m.slot (.ofOpcode o)).setBit o.middle (decide (0xC0 ≤ o))) := by
  simp only [executeExtended, Extended.decode_of_le assigning]

/-- An opcode decides the bit that it names and leaves the others, as long as it does not move their
slot. -/
theorem bit_executeExtended (assigning : 0x80 ≤ o)
    (still : r = .atHl → (Slot.ofOpcode o).movesHl = false) (i : Fin 8) :
    ((m.executeExtended o).slot r).bit i =
      if names r i o then decide (0xC0 ≤ o) else (m.slot r).bit i := by
  rw [executeExtended_assigning m assigning]
  by_cases same : r = Slot.ofOpcode o
  · subst same
    simp only [slot_setSlot, Byte.bit_setBit, names, true_and, decide_eq_true_eq]
  · have unnamed : names r i o = false := decide_eq_false fun named => same named.1.symm
    rw [slot_setSlot_of_ne m same still, unnamed]
    rfl

/-- Opcodes that name different bits can change places, as long as none of them moves the slot of the
other. -/
theorem executeExtended_comm (first : 0x80 ≤ o) (second : 0x80 ≤ p)
    (apart : Slot.ofOpcode o ≠ Slot.ofOpcode p → (Slot.ofOpcode o).Apart (.ofOpcode p))
    (other : Slot.ofOpcode o ≠ Slot.ofOpcode p ∨ o.middle ≠ p.middle) :
    (m.executeExtended o).executeExtended p = (m.executeExtended p).executeExtended o := by
  simp only [executeExtended_assigning _ first, executeExtended_assigning _ second]
  by_cases same : Slot.ofOpcode o = Slot.ofOpcode p
  · have bits : o.middle ≠ p.middle := other.resolve_left (not_not_intro same)
    simp only [same, slot_setSlot, setSlot_setSlot, Byte.setBit_comm _ bits]
  · have apart := apart same
    rw [slot_setSlot_of_ne m (Ne.symm same) apart.right, slot_setSlot_of_ne m same apart.left,
      setSlot_comm m apart]

/-! ## Sequences -/

/-- Carries out opcodes of the extended table one after the other. -/
def executeAll (ops : List Byte) : Machine :=
  ops.foldl executeExtended m

/-- A bit is what the last opcode that names it made of it. If none does, it is as it was. -/
theorem bit_executeAll (assigning : ∀ o ∈ ops, 0x80 ≤ o)
    (still : r = .atHl → ∀ o ∈ ops, (Slot.ofOpcode o).movesHl = false) (i : Fin 8) :
    ((m.executeAll ops).slot r).bit i = (lastWrite ops r i).getD ((m.slot r).bit i) := by
  induction ops using List.reverseRecOn with
  | nil => rfl
  | append_singleton ops o ih =>
    simp only [List.forall_mem_append, List.forall_mem_singleton] at assigning still
    have before := ih assigning.1 fun atHl => (still atHl).1
    rw [executeAll, List.foldl_append, lastWrite_concat]
    rw [List.foldl_cons, List.foldl_nil,
      bit_executeExtended _ assigning.2 fun atHl => (still atHl).2]
    split
    · rfl
    · exact before

/-- What no opcode writes stays. -/
theorem part_executeAll {α : Type} (part : Machine → α)
    (kept : ∀ o ∈ ops, ∀ m : Machine, part (m.executeExtended o) = part m) :
    part (m.executeAll ops) = part m := by
  induction ops generalizing m with
  | nil => rfl
  | cons o ops ih =>
    rw [List.forall_mem_cons] at kept
    exact (ih (m.executeExtended o) kept.2).trans (kept.1 m)

/-- The machine apart from its slots is as it was. -/
theorem others_executeAll (assigning : ∀ o ∈ ops, 0x80 ≤ o) :
    (m.executeAll ops).regs.flags = m.regs.flags ∧ (m.executeAll ops).regs.sp = m.regs.sp ∧
      (m.executeAll ops).regs.pc = m.regs.pc ∧ (m.executeAll ops).latches = m.latches := by
  refine ⟨?_, ?_, ?_, ?_⟩
  · apply part_executeAll m fun n => n.regs.flags
    intro o member m
    rw [executeExtended_assigning m (assigning o member), flags_setSlot]
  · apply part_executeAll m fun n => n.regs.sp
    intro o member m
    exact m.sp_executeExtended o
  · apply part_executeAll m fun n => n.regs.pc
    intro o member m
    exact m.pc_executeExtended o
  · apply part_executeAll m latches
    intro o member m
    exact m.latches_executeExtended o

private theorem memory_executeAll (assigning : ∀ o ∈ ops, 0x80 ≤ o)
    (absent : ∀ o ∈ ops, Slot.ofOpcode o ≠ .atHl) : (m.executeAll ops).memory = m.memory := by
  apply part_executeAll m Machine.memory
  intro o member m
  rw [executeExtended_assigning m (assigning o member), memory_setSlot, if_neg (absent o member)]

private theorem hl_setSlot {s : Slot} (still : s.movesHl = false) (v : Byte) :
    (m.setSlot s v).regs.hl = m.regs.hl := by
  cases s with
  | h | l => cases still
  | _ => rfl

/-- If `hl` is not moved, then all cells but the one it points at stay. -/
theorem get_executeAll_of_ne (assigning : ∀ o ∈ ops, 0x80 ≤ o)
    (still : ∀ o ∈ ops, (Slot.ofOpcode o).movesHl = false) {a : Word} (outside : a ≠ m.regs.hl) :
    (m.executeAll ops).memory.get a = m.memory.get a := by
  -- with the cell at `hl` blanked out nothing of the memory is written any more
  let part (n : Machine) : Word × Memory := (n.regs.hl, n.memory.set n.regs.hl 0)
  have kept : part (m.executeAll ops) = part m := by
    apply part_executeAll m part
    intro o member m
    have hl := m.hl_setSlot (still o member)
    simp only [part, executeExtended_assigning m (assigning o member), hl, memory_setSlot]
    split <;> simp
  have hl : (m.executeAll ops).regs.hl = m.regs.hl := congrArg Prod.fst kept
  have cells : (m.executeAll ops).memory.set (m.executeAll ops).regs.hl 0 =
      m.memory.set m.regs.hl 0 := congrArg Prod.snd kept
  rw [← Memory.get_set_of_ne (m.executeAll ops).memory 0 outside.symm, ← hl, cells,
    Memory.get_set_of_ne _ _ outside.symm]

/-- What opcodes that set and clear bits leave behind. -/
structure LastWriteCounts (m : Machine) (ops : List Byte) : Prop where
  /-- The last opcode that names a bit decides it. The slot in memory must not have been moved. -/
  bit : ∀ r i, (r = .atHl → ∀ o ∈ ops, (Slot.ofOpcode o).movesHl = false) →
    ((m.executeAll ops).slot r).bit i = (lastWrite ops r i).getD ((m.slot r).bit i)
  /-- A test that follows sees the bit. -/
  test : ∀ r i, let n := (m.executeAll ops).executeExtended (Extended.opcode r (.testBit i))
    n.regs.flags.zero = !((m.executeAll ops).slot r).bit i
  flags : (m.executeAll ops).regs.flags = m.regs.flags
  sp : (m.executeAll ops).regs.sp = m.regs.sp
  pc : (m.executeAll ops).regs.pc = m.regs.pc
  latches : (m.executeAll ops).latches = m.latches
  cells : ∀ a ≠ m.regs.hl, (m.executeAll ops).memory.get a = m.memory.get a
  /-- If the slot in memory has been moved, then nothing was written to memory. -/
  moved : (∃ o ∈ ops, (Slot.ofOpcode o).movesHl = true) → (m.executeAll ops).memory = m.memory
  /-- Neighbours that name different bits can change places. -/
  swap : ∀ front o p back, ops = front ++ o :: p :: back →
    Slot.ofOpcode o ≠ Slot.ofOpcode p ∨ o.middle ≠ p.middle →
    m.executeAll ops = m.executeAll (front ++ p :: o :: back)

/-- **Of the opcodes that name a bit the last one counts.** A sequence of them that does not both work
on the slot in memory and move it leaves every bit as the last one that names it made it, and all else
as it was, the flags included. Neighbours that name different bits can change places. The slot in memory
is left out where it has been moved: it is another cell then, of a memory that was not written. -/
theorem last_write_counts (m : Machine) {ops : List Byte} (assigning : ∀ o ∈ ops, 0x80 ≤ o)
    (separate : Separate ops) : m.LastWriteCounts ops := by
  obtain ⟨flags, sp, pc, latches⟩ := m.others_executeAll assigning
  refine ⟨?_, ?_, flags, sp, pc, latches, ?_, ?_, ?_⟩
  · intro r i still
    exact m.bit_executeAll assigning still i
  · intro r i
    rw [executeExtended_testBit]
    rfl
  · intro a outside
    rcases separate with absent | still
    · rw [m.memory_executeAll assigning absent]
    · exact m.get_executeAll_of_ne assigning still outside
  · rintro ⟨o, member, moves⟩
    rcases separate with absent | still
    · exact m.memory_executeAll assigning absent
    · exact absurd ((still o member).symm.trans moves) Bool.false_ne_true
  · rintro front o p back rfl other
    have first : o ∈ front ++ o :: p :: back := by simp
    have second : p ∈ front ++ o :: p :: back := by simp
    have swapped := executeExtended_comm (front.foldl executeExtended m) (assigning o first)
      (assigning p second) (separate.apart first second) other
    simp only [executeAll, List.foldl_append, List.foldl_cons, swapped]

/-- Memory begins with the bytes 1 and 0, and `hl` points at the second of them. -/
def atSecondCell : Machine :=
  { ofProgram ⟨#[0x01]⟩ with regs.h := 0, regs.l := 1 }

theorem last_write_counts_atSecondCell :
    (∀ o ∈ ([0xC6, 0xC7, 0x86] : List Byte), 0x80 ≤ o) ∧ Separate [0xC6, 0xC7, 0x86] ∧
      ((atSecondCell.executeAll [0xC6, 0xC7, 0x86]).slot .atHl).bit 0 = false ∧
      atSecondCell.executeAll [0xC6, 0xC7, 0x86] = atSecondCell.executeAll [0xC6, 0x86, 0xC7] := by
  have each : ∀ o ∈ ([0xC6, 0xC7, 0x86] : List Byte),
      0x80 ≤ o ∧ (Slot.ofOpcode o).movesHl = false := by
    intro o member
    simp only [List.mem_cons, List.not_mem_nil, or_false] at member
    rcases member with rfl | rfl | rfl <;> decide
  have assigning := fun o member => (each o member).left
  have still := fun o member => (each o member).right
  obtain ⟨bit, -, -, -, -, -, -, -, swap⟩ := last_write_counts atSecondCell assigning (.inr still)
  exact ⟨assigning, .inr still, bit .atHl 0 fun _ => still,
    swap [0xC6] 0xC7 0x86 [] rfl (.inl (by decide))⟩

/-- To clear bit 0 of `l` moves the slot in memory from the second cell to the first. Its bit 0 was
clear and is set now, though no opcode names it. -/
theorem moved_slot_escapes :
    (∀ o ∈ ([0x85] : List Byte), 0x80 ≤ o) ∧ Separate [0x85] ∧
      ¬ ∀ r i, ((atSecondCell.executeAll [0x85]).slot r).bit i =
        (lastWrite [0x85] r i).getD ((atSecondCell.slot r).bit i) := by
  have first : atSecondCell.memory.get 0 = 1 := get_ofProgram _ 0 (by decide)
  have second : atSecondCell.memory.get 1 = 0 := get_ofProgram _ 1 (by decide)
  have before : atSecondCell.slot .atHl = 0 := second
  have after : (atSecondCell.executeAll [0x85]).slot .atHl = 1 := first
  have assigning : ∀ o ∈ ([0x85] : List Byte), 0x80 ≤ o :=
    List.forall_mem_singleton.mpr (by decide)
  have absent : ∀ o ∈ ([0x85] : List Byte), Slot.ofOpcode o ≠ .atHl :=
    List.forall_mem_singleton.mpr (by decide)
  refine ⟨assigning, .inl absent, fun asWritten => ?_⟩
  have set := asWritten .atHl 0
  rw [before, after] at set
  exact absurd set (by decide)

end Machine

end Sm83
