import Mathlib.Data.Set.Card
import Sm83.Machine.Boot
import Sm83.Proofs.ControlFlow

/-! What a step writes. A table gives for each opcode the cells it stores to and what it puts there,
all read from the machine as the step found it. `memory_step_eq_table` says that a step changes
memory by exactly these cells, of which there are never more than two. -/
namespace Sm83

namespace Memory

/-- The memory with several cells overwritten, one after the other. -/
def setAll (m : Memory) (cells : List (Word × Byte)) : Memory :=
  cells.foldl (fun m cell => m.set cell.1 cell.2) m

@[simp] theorem setAll_nil (m : Memory) : m.setAll [] = m := rfl

@[simp] theorem setAll_cons (m : Memory) (a : Word) (v : Byte) (cells : List (Word × Byte)) :
    m.setAll ((a, v) :: cells) = (m.set a v).setAll cells := rfl

private theorem get_setAll_of_notMem (cells : List (Word × Byte)) {a : Word}
    (outside : a ∉ cells.map Prod.fst) (m : Memory) : (m.setAll cells).get a = m.get a := by
  induction cells generalizing m with
  | nil => rfl
  | cons cell rest ih =>
    obtain ⟨k, v⟩ := cell
    rw [List.map_cons, List.mem_cons, not_or] at outside
    rw [setAll_cons, ih outside.2, get_set_of_ne m v (Ne.symm outside.1)]

/-- A byte in a cell that is overwritten afterwards does not matter. -/
theorem setAll_set_of_mem (cells : List (Word × Byte)) {a : Word} (inside : a ∈ cells.map Prod.fst)
    (m : Memory) (v : Byte) : (m.set a v).setAll cells = m.setAll cells := by
  induction cells generalizing m with
  | nil => exact absurd inside List.not_mem_nil
  | cons cell rest ih =>
    obtain ⟨k, w⟩ := cell
    rw [setAll_cons, setAll_cons]
    by_cases same : a = k
    · rw [same, set_set]
    · rw [List.map_cons, List.mem_cons] at inside
      rw [set_comm m v w same, ih (inside.resolve_left same)]

/-- A byte in a cell that is not overwritten stays there. -/
theorem setAll_set_of_notMem (cells : List (Word × Byte)) {a : Word}
    (outside : a ∉ cells.map Prod.fst) (m : Memory) (v : Byte) :
    (m.set a v).setAll cells = (m.setAll cells).set a v := by
  induction cells generalizing m with
  | nil => rfl
  | cons cell rest ih =>
    obtain ⟨k, w⟩ := cell
    rw [List.map_cons, List.mem_cons, not_or] at outside
    rw [setAll_cons, setAll_cons, set_comm m v w outside.1, ih outside.2]

/-- Overwriting some cells changes no more cells than that. -/
private theorem encard_changed_setAll (m : Memory) (cells : List (Word × Byte)) :
    {a | (m.setAll cells).get a ≠ m.get a}.encard ≤ cells.length := by
  have within : {a | (m.setAll cells).get a ≠ m.get a} ⊆
      ((cells.map Prod.fst).toFinset : Set Word) := by
    intro a changed
    rw [Finset.mem_coe, List.mem_toFinset]
    by_contra outside
    exact changed (get_setAll_of_notMem cells outside m)
  have few : (cells.map Prod.fst).toFinset.card ≤ cells.length := by
    simpa using (cells.map Prod.fst).toFinset_card_le
  calc {a | (m.setAll cells).get a ≠ m.get a}.encard
      ≤ ((cells.map Prod.fst).toFinset : Set Word).encard := Set.encard_le_encard within
    _ = (cells.map Prod.fst).toFinset.card := Set.encard_coe_eq_coe_finsetCard _
    _ ≤ cells.length := by exact_mod_cast few

end Memory

/-- What an instruction puts into memory. -/
inductive Store
  /-- The accumulator, at an address. -/
  | accumulator (target : Address)
  /-- What a slot holds, where `hl` points. -/
  | slot (s : Slot)
  /-- The operand byte, where `hl` points. -/
  | operand
  /-- The byte where `hl` points, moved up by one. -/
  | incremented
  /-- The byte where `hl` points, moved down by one. -/
  | decremented
  /-- The stack pointer, at the operand word. -/
  | stackPointer
  /-- A pair, on the stack. -/
  | pair (p : StackPair)
  /-- The address so many bytes behind the opcode, on the stack. -/
  | returnAddress (length : Word)
deriving DecidableEq

/-- The cell that an address operand names. -/
def Address.location (m : Machine) : Address → Word
  | .bc => m.regs.bc
  | .de => m.regs.de
  | .hlIncrement | .hlDecrement => m.regs.hl
  | .highPage => 0xFF00 + (m.memory.get (m.regs.pc + 1)).toUInt16
  | .highPageC => 0xFF00 + m.regs.c.toUInt16
  | .absolute => .ofBytes (m.memory.get (m.regs.pc + 2)) (m.memory.get (m.regs.pc + 1))

/-- The cells below the stack pointer that a word is pushed to. -/
def Machine.pushed (m : Machine) (w : Word) : List (Word × Byte) :=
  [(m.regs.sp - 1, w.high), (m.regs.sp - 2, w.low)]

/-- The cells that are written, with what is written there. -/
def Store.cells (m : Machine) : Store → List (Word × Byte)
  | .accumulator a => [(a.location m, m.regs.a)]
  | .slot s => [(m.regs.hl, m.slot s)]
  | .operand => [(m.regs.hl, m.memory.get (m.regs.pc + 1))]
  | .incremented => [(m.regs.hl, m.memory.get m.regs.hl + 1)]
  | .decremented => [(m.regs.hl, m.memory.get m.regs.hl - 1)]
  | .stackPointer =>
    let a := Word.ofBytes (m.memory.get (m.regs.pc + 2)) (m.memory.get (m.regs.pc + 1))
    [(a, m.regs.sp.low), (a + 1, m.regs.sp.high)]
  | .pair p => m.pushed (m.regs.stackPair p)
  | .returnAddress n => m.pushed (m.regs.pc + n)

/-! ## The table by opcode -/

/-- What an opcode writes, and on which condition. -/
def store? (o : Byte) : Option (Store × Condition) :=
  match o.toNat with
  | 0x02 => some (.accumulator .bc, .always)
  | 0x12 => some (.accumulator .de, .always)
  | 0x22 => some (.accumulator .hlIncrement, .always)
  | 0x32 => some (.accumulator .hlDecrement, .always)
  | 0xE0 => some (.accumulator .highPage, .always)
  | 0xE2 => some (.accumulator .highPageC, .always)
  | 0xEA => some (.accumulator .absolute, .always)
  | 0x70 => some (.slot .b, .always)
  | 0x71 => some (.slot .c, .always)
  | 0x72 => some (.slot .d, .always)
  | 0x73 => some (.slot .e, .always)
  | 0x74 => some (.slot .h, .always)
  | 0x75 => some (.slot .l, .always)
  | 0x76 => some (.slot .atHl, .always)
  | 0x77 => some (.slot .a, .always)
  | 0x36 => some (.operand, .always)
  | 0x34 => some (.incremented, .always)
  | 0x35 => some (.decremented, .always)
  | 0x08 => some (.stackPointer, .always)
  | 0xC5 => some (.pair .bc, .always)
  | 0xD5 => some (.pair .de, .always)
  | 0xE5 => some (.pair .hl, .always)
  | 0xF5 => some (.pair .af, .always)
  | 0xCD => some (.returnAddress 3, .always)
  | 0xC4 => some (.returnAddress 3, .notZero)
  | 0xCC => some (.returnAddress 3, .zero)
  | 0xD4 => some (.returnAddress 3, .notCarry)
  | 0xDC => some (.returnAddress 3, .carry)
  | 0xC7 | 0xCF | 0xD7 | 0xDF | 0xE7 | 0xEF | 0xF7 | 0xFF => some (.returnAddress 1, .always)
  | _ => none

/-- The cells that a machine writes if the condition holds. -/
def Machine.written (m : Machine) (store? : Option (Store × Condition)) : List (Word × Byte) :=
  match store? with
  | some (s, c) => if c.holds m.regs.flags then s.cells m else []
  | none => []

/-! ## The table by instruction -/

namespace Instruction

/-- What an instruction writes, and on which condition. -/
def store? : Instruction → Option (Store × Condition)
  | .load .atHl (.slot s) => some (.slot s, .always)
  | .load .atHl .immediate => some (.operand, .always)
  | .storeA a => some (.accumulator a, .always)
  | .storeSp => some (.stackPointer, .always)
  | .increment .atHl => some (.incremented, .always)
  | .decrement .atHl => some (.decremented, .always)
  | .call c => some (.returnAddress 3, c)
  | .restart _ => some (.returnAddress 1, .always)
  | .push p => some (.pair p, .always)
  | _ => none

theorem store?_decode (o : Byte) : (decode o).store? = Sm83.store? o := by
  apply Byte.forall_of_fields (p := fun o => (decode o).store? = Sm83.store? o)
  decide

end Instruction

/-! ## The step -/

namespace Machine

theorem address_eq_location (m : Machine) (a : Address) : m.address a = a.location m := by
  cases a with
  | absolute => exact m.operandWord_eq
  | bc | de | hlIncrement | hlDecrement | highPage | highPageC => rfl

private theorem memory_push_eq_setAll (m : Machine) (w : Word) :
    (m.push w).memory = m.memory.setAll (m.pushed w) := by
  simp [pushed]

/-- An instruction writes what its table says, whatever it does to the registers meanwhile. Where the
extended table is reached, the byte at hand is the prefix. -/
theorem memory_execute (m : Machine) (i : Instruction)
    (fetched : i = .extended → m.opcode = 0xCB) :
    (m.execute i).memory = m.memory.setAll (m.written i.store?) := by
  cases i with
  | load t s =>
    cases t with
    | atHl => cases s <;> rfl
    | b | c | d | e | h | l | a => simp [execute, written, Instruction.store?]
  | increment s | decrement s =>
    cases s with
    | atHl => rfl
    | b | c | d | e | h | l | a => simp [execute, written, Instruction.store?]
  | storeA a =>
    have kept : (m.pastAddress a).regs.a = m.regs.a := by cases a <;> rfl
    simp [execute, written, Instruction.store?, Store.cells, Condition.holds, kept,
      address_eq_location]
  | storeSp =>
    simp [execute, written, Instruction.store?, Store.cells, Condition.holds, operandWord_eq]
  | call c =>
    have behind : m.regs.pc + 2 + 1 = m.regs.pc + 3 := by grind
    by_cases taken : c.holds m.regs.flags
    · simp [execute, taken, written, Instruction.store?, Store.cells, pushed, nextAddress, behind]
    · simp [execute, taken, written, Instruction.store?]
  | restart v | push p => exact m.memory_push_eq_setAll _
  | jumpRelative c | jump c =>
    by_cases taken : c.holds m.regs.flags <;> simp [execute, taken, written, Instruction.store?]
  | ret c => exact m.memory_execute_ret c
  | extended =>
    rw [execute, fetched rfl, executeExtended_prefix]
    rfl
  | _ => simp [execute, written, Instruction.store?]

/-- A step writes what its instruction's table says. -/
theorem memory_step (m : Machine) :
    m.step.memory = m.memory.setAll (m.written (Instruction.decode m.opcode).store?) := by
  have fetched := Instruction.eq_of_decode_extended m.opcode
  have ticked (t : Option (Store × Condition)) : m.tick.written t = m.written t := by
    rcases t with _ | ⟨s, c⟩
    · rfl
    · cases s <;> rfl
  rw [step_eq, memory_skip, memory_execute m.tick _ fetched, ticked, memory_tick]

/-- The addresses that a step writes to, whether or not it changes what they hold. -/
def stores (m : Machine) : List Word :=
  (m.written (Sm83.store? m.opcode)).map Prod.fst

theorem memory_step_eq_setAll (m : Machine) :
    m.step.memory = m.memory.setAll (m.written (Sm83.store? m.opcode)) := by
  rw [memory_step, Instruction.store?_decode]

theorem get_step_of_notMem_stores {m : Machine} {a : Word} (outside : a ∉ m.stores) :
    m.step.memory.get a = m.memory.get a := by
  rw [memory_step_eq_setAll]
  exact Memory.get_setAll_of_notMem _ outside m.memory

/-- A store has at most two cells, and they differ, so their order does not matter. -/
private theorem cells_distinct (m : Machine) (s : Store) :
    ((s.cells m).map Prod.fst).Nodup ∧ (s.cells m).length ≤ 2 := by
  have below := m.regs.sp.sub_one_ne_sub_two
  have above (a : Word) : a ≠ a + 1 := by grind
  cases s with
  | stackPointer => simp [Store.cells, above]
  | pair p | returnAddress n => simp [Store.cells, pushed, below]
  | accumulator a | slot s | operand | incremented | decremented => simp [Store.cells]

private theorem written_distinct (m : Machine) (t : Option (Store × Condition)) :
    ((m.written t).map Prod.fst).Nodup ∧ (m.written t).length ≤ 2 := by
  rcases t with _ | ⟨s, c⟩
  · simp [written]
  · rw [written]
    split
    · exact m.cells_distinct s
    · simp

/-- **A step writes what the table says.** Each cell holds afterwards what the table puts there, or
what it held before, and so at most two cells change. -/
theorem memory_step_eq_table (m : Machine) :
    (∀ a, m.step.memory.get a =
      ((m.written (store? m.opcode)).lookup a).getD (m.memory.get a)) ∧
    {a | m.step.memory.get a ≠ m.memory.get a}.encard ≤ 2 := by
  obtain ⟨distinct, short⟩ := m.written_distinct (store? m.opcode)
  rw [memory_step, Instruction.store?_decode]
  refine ⟨Memory.get_foldl_set _ distinct m.memory, ?_⟩
  calc {a | (m.memory.setAll (m.written (store? m.opcode))).get a ≠ m.memory.get a}.encard
      ≤ (m.written (store? m.opcode)).length := m.memory.encard_changed_setAll _
    _ ≤ 2 := by exact_mod_cast short

end Machine

end Sm83
