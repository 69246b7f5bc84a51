import Sm83.Proofs.LatchHistory
import Sm83.Proofs.MemoryWrites

/-! What a step reads. A table gives for each opcode the cells it loads from besides its own bytes. A
step that finds another byte in any cell it does not read does what it did before: it overwrites the
byte if it stores there, and carries it along if it does not (`step_write`). So a cell that a run never
reads cannot matter to it, whatever the run does to its own code on the way. -/
namespace Sm83

/-- What an instruction loads from memory besides its own bytes. -/
inductive Load
  /-- The accumulator, from an address. -/
  | accumulator (source : Address)
  /-- The byte where `hl` points. -/
  | atHl
  /-- The word on top of the stack. -/
  | stackTop
deriving DecidableEq

/-- The cells that are read. -/
def Load.cells (m : Machine) : Load → List Word
  | .accumulator a => [a.location m]
  | .atHl => [m.regs.hl]
  | .stackTop => [m.regs.sp, m.regs.sp + 1]

/-- What an opcode loads, and on which condition. -/
def load? (o : Byte) : Option (Load × Condition) :=
  match o.toNat with
  | 0x46 | 0x4E | 0x56 | 0x5E | 0x66 | 0x6E | 0x76 | 0x7E
  | 0x86 | 0x8E | 0x96 | 0x9E | 0xA6 | 0xAE | 0xB6 | 0xBE
  | 0x34 | 0x35 => some (.atHl, .always)
  | 0x0A => some (.accumulator .bc, .always)
  | 0x1A => some (.accumulator .de, .always)
  | 0x2A => some (.accumulator .hlIncrement, .always)
  | 0x3A => some (.accumulator .hlDecrement, .always)
  | 0xF0 => some (.accumulator .highPage, .always)
  | 0xF2 => some (.accumulator .highPageC, .always)
  | 0xFA => some (.accumulator .absolute, .always)
  | 0xC1 | 0xD1 | 0xE1 | 0xF1 | 0xC9 | 0xD9 => some (.stackTop, .always)
  | 0xC0 => some (.stackTop, .notZero)
  | 0xC8 => some (.stackTop, .zero)
  | 0xD0 => some (.stackTop, .notCarry)
  | 0xD8 => some (.stackTop, .carry)
  | _ => none

namespace Instruction

/-- What an instruction loads, and on which condition. -/
def load? : Instruction → Option (Load × Condition)
  | .load _ (.slot .atHl) | .alu _ (.slot .atHl) | .increment .atHl | .decrement .atHl =>
    some (.atHl, .always)
  | .loadA a => some (.accumulator a, .always)
  | .ret c => some (.stackTop, c)
  | .retInterrupt | .pop _ => some (.stackTop, .always)
  | _ => none

theorem load?_decode (o : Byte) : (decode o).load? = Sm83.load? o := by
  apply Byte.forall_of_fields (p := fun o => (decode o).load? = Sm83.load? o)
  decide

end Instruction

namespace Machine

/-- The cells that are loaded if the condition holds. -/
def loaded (m : Machine) (load? : Option (Load × Condition)) : List Word :=
  match load? with
  | some (l, c) => if c.holds m.regs.flags then l.cells m else []
  | none => []

/-- The cells of an opcode and its operand bytes. -/
def code (m : Machine) (operands : Word) : List Word :=
  m.regs.pc :: [m.regs.pc + 1, m.regs.pc + 2].take operands.toNat

/-- The addresses that a step reads from. -/
def reads (m : Machine) : List Word :=
  m.code (operandCount m.opcode) ++ m.loaded (Sm83.load? m.opcode)

/-- The addresses that an instruction reads from. -/
def readsOf (m : Machine) (i : Instruction) : List Word :=
  m.code i.operandCount ++ m.loaded i.load?

private theorem reads_eq (m : Machine) : m.reads = m.readsOf (.decode m.opcode) := by
  rw [reads, readsOf, Instruction.operandCount_decode, Instruction.load?_decode]

/-- The machine with another memory. -/
def withMemory (m : Machine) (memory : Memory) : Machine :=
  { m with memory }

/-! ## Instructions -/

section OtherMemory

variable {m : Machine} {memory : Memory}

private theorem regs_withMemory : (m.withMemory memory).regs = m.regs := rfl

private theorem regs_setSlot_withMemory (s : Slot) (v : Byte) :
    ((m.withMemory memory).setSlot s v).regs = (m.setSlot s v).regs := by
  cases s <;> rfl

private theorem regs_store_withMemory (s : Slot) (r : Alu.Result Byte) :
    ((m.withMemory memory).store s r).regs = (m.store s r).regs :=
  regs_setSlot_withMemory (m := m.setFlags r.flags) s r.value

private theorem pastSource_withMemory (s : Source) :
    (m.withMemory memory).pastSource s = (m.pastSource s).withMemory memory := by
  cases s <;> rfl

private theorem pastAddress_withMemory (a : Address) :
    (m.withMemory memory).pastAddress a = (m.pastAddress a).withMemory memory := by
  cases a <;> rfl

/-- The other memory holds the same bytes in some cells. -/
def Agrees (m : Machine) (memory : Memory) (cells : List Word) : Prop :=
  ∀ a ∈ cells, memory.get a = m.memory.get a

theorem Agrees.code {i : Instruction} (agree : m.Agrees memory (m.readsOf i)) :
    m.Agrees memory (m.code i.operandCount) :=
  fun a member => agree a (List.mem_append_left _ member)

theorem Agrees.loaded {i : Instruction} (agree : m.Agrees memory (m.readsOf i)) :
    m.Agrees memory (m.loaded i.load?) :=
  fun a member => agree a (List.mem_append_right _ member)

private theorem operandByte_withMemory (agree : m.Agrees memory (m.code 1)) :
    (m.withMemory memory).operandByte = m.operandByte :=
  agree (m.regs.pc + 1) (by simp [Machine.code])

private theorem operandWord_withMemory (agree : m.Agrees memory (m.code 2)) :
    (m.withMemory memory).operandWord = m.operandWord := by
  have low := agree (m.regs.pc + 1) (by simp [Machine.code])
  have high := agree (m.regs.pc + 2) (by simp [Machine.code])
  rw [operandWord_eq, operandWord_eq]
  exact congrArg₂ Word.ofBytes high low

private theorem top_withMemory (agree : m.Agrees memory [m.regs.sp, m.regs.sp + 1]) :
    (m.withMemory memory).top = m.top := by
  have low := agree m.regs.sp (by simp)
  have high := agree (m.regs.sp + 1) (by simp)
  exact congrArg₂ Word.ofBytes high low

private theorem slot_withMemory (s : Slot) (agree : s = .atHl → m.Agrees memory [m.regs.hl]) :
    (m.withMemory memory).slot s = m.slot s := by
  cases s with
  | atHl => exact agree rfl m.regs.hl (List.mem_singleton_self _)
  | b | c | d | e | h | l | a => rfl

/-- The loads and the arithmetic instructions read what their source needs. -/
theorem source_withMemory {i : Instruction} {s : Source}
    (takes : (∃ t, i = .load t s) ∨ ∃ op, i = .alu op s) (agree : m.Agrees memory (m.readsOf i)) :
    (m.withMemory memory).source s = m.source s := by
  cases s with
  | slot s =>
    apply slot_withMemory
    rintro rfl
    obtain ⟨t, rfl⟩ | ⟨op, rfl⟩ := takes
    · exact agree.loaded
    · exact agree.loaded
  | immediate =>
    apply operandByte_withMemory
    obtain ⟨t, rfl⟩ | ⟨op, rfl⟩ := takes
    · exact agree.code
    · exact agree.code

private theorem address_withMemory (a : Address)
    (agree : m.Agrees memory (m.code (Instruction.storeA a).operandCount)) :
    (m.withMemory memory).address a = m.address a := by
  cases a with
  | highPage => exact congrArg (Word.ofBytes 0xFF) (operandByte_withMemory agree)
  | absolute => exact operandWord_withMemory agree
  | bc | de | hlIncrement | hlDecrement | highPageC => rfl

/-- What an instruction makes of the registers depends on no cell but those it reads. -/
theorem regs_execute_withMemory (i : Instruction) (fetched : i = .extended → m.opcode = 0xCB)
    (agree : m.Agrees memory (m.readsOf i)) :
    ((m.withMemory memory).execute i).regs = (m.execute i).regs := by
  cases i with
  | load t s =>
    have read : (m.withMemory memory).source s = m.source s :=
      source_withMemory (.inl ⟨t, rfl⟩) agree
    simp only [execute, read, pastSource_withMemory]
    exact regs_setSlot_withMemory t _
  | alu op s =>
    have read : (m.withMemory memory).source s = m.source s :=
      source_withMemory (.inr ⟨op, rfl⟩) agree
    simp only [execute, read, pastSource_withMemory]
    exact regs_store_withMemory .a _
  | increment s | decrement s =>
    have read : (m.withMemory memory).slot s = m.slot s := by
      apply slot_withMemory
      rintro rfl
      exact agree.loaded
    simp only [execute, read]
    exact regs_store_withMemory s _
  | loadWord p =>
    simp only [execute, operandWord_withMemory agree.code]
    rfl
  | loadA a =>
    have code : m.Agrees memory (m.code (Instruction.storeA a).operandCount) := by
      cases a <;> exact agree.code
    have loaded := agree.loaded (m.address a) (by
      rw [address_eq_location]
      exact List.mem_singleton_self _)
    have read : (m.withMemory memory).memory.get (m.address a) = m.memory.get (m.address a) := loaded
    simp only [execute, address_withMemory a code, read, pastAddress_withMemory]
    exact regs_setSlot_withMemory .a _
  | storeA a => cases a <;> rfl
  | loadHlSpOffset | addSpOffset =>
    simp only [execute, operandByte_withMemory agree.code]
    rfl
  | jumpRelative c =>
    by_cases taken : c.holds m.regs.flags <;>
      simp only [execute, operandByte_withMemory agree.code, flags_skip, regs_withMemory, taken] <;>
      rfl
  | jump c | call c =>
    by_cases taken : c.holds m.regs.flags <;>
      simp only [execute, operandWord_withMemory agree.code, flags_skip, regs_withMemory, taken] <;>
      rfl
  | ret c =>
    rw [regs_execute_ret, regs_execute_ret, regs_withMemory]
    by_cases taken : c.holds m.regs.flags
    · have loaded := agree.loaded
      rw [Instruction.load?, Machine.loaded, if_pos taken] at loaded
      rw [if_pos taken, if_pos taken, top_withMemory loaded]
      rfl
    · rw [if_neg taken, if_neg taken]
      rfl
  | retInterrupt | pop p =>
    simp only [execute, top_withMemory agree.loaded]
    rfl
  | extended =>
    have opcode : (m.withMemory memory).opcode = m.opcode :=
      agree m.regs.pc (List.mem_cons_self)
    rw [execute, execute, opcode, fetched rfl]
    rfl
  | _ => rfl

/-- What an instruction stores, and where, depends on no cell but those it reads. -/
private theorem written_withMemory (i : Instruction) (agree : m.Agrees memory (m.readsOf i)) :
    (m.withMemory memory).written i.store? = m.written i.store? := by
  cases i with
  | load t s =>
    cases t with
    | atHl =>
      have read : (m.withMemory memory).source s = m.source s :=
        source_withMemory (.inl ⟨.atHl, rfl⟩) agree
      have cells : ∀ n : Machine, n.written (Instruction.load .atHl s).store? =
          [(n.regs.hl, n.source s)] := by
        intro n
        cases s <;> rfl
      rw [cells, cells, read]
      rfl
    | b | c | d | e | h | l | a => rfl
  | increment s =>
    cases s with
    | atHl =>
      have read : memory.get m.regs.hl = m.memory.get m.regs.hl :=
        agree.loaded _ (List.mem_singleton_self _)
      exact congrArg (fun v => [(m.regs.hl, v + 1)]) read
    | b | c | d | e | h | l | a => rfl
  | decrement s =>
    cases s with
    | atHl =>
      have read : memory.get m.regs.hl = m.memory.get m.regs.hl :=
        agree.loaded _ (List.mem_singleton_self _)
      exact congrArg (fun v => [(m.regs.hl, v - 1)]) read
    | b | c | d | e | h | l | a => rfl
  | storeA a =>
    have target := address_withMemory a agree.code
    rw [address_eq_location, address_eq_location] at target
    exact congrArg (fun x => [(x, m.regs.a)]) target
  | storeSp =>
    have target := operandWord_withMemory agree.code
    rw [operandWord_eq, operandWord_eq] at target
    exact congrArg (fun x => [(x, m.regs.sp.low), (x + 1, m.regs.sp.high)]) target
  | _ => rfl

end OtherMemory

/-! ## Steps -/

variable {m : Machine} {x : Word}

private theorem readsOf_tick (i : Instruction) : m.tick.readsOf i = m.readsOf i := by
  have ticked (t : Option (Load × Condition)) : m.tick.loaded t = m.loaded t := by
    rcases t with _ | ⟨l, c⟩
    · rfl
    · cases l with
      | accumulator a => cases a <;> rfl
      | atHl | stackTop => rfl
  exact congrArg (m.code i.operandCount ++ ·) (ticked i.load?)

/-- A step on a memory that agrees in the cells it reads does the same to the registers and the
latches, and makes the same writes. -/
theorem step_withMemory {memory : Memory} (agree : m.Agrees memory m.reads) :
    (m.withMemory memory).step =
      m.step.withMemory (memory.setAll (m.written (Sm83.store? m.opcode))) := by
  rw [reads_eq] at agree
  let i := Instruction.decode m.opcode
  have opcode : (m.withMemory memory).opcode = m.opcode := agree m.regs.pc List.mem_cons_self
  have stepped : (m.withMemory memory).step = ((m.tick.withMemory memory).execute i).skip 1 := by
    rw [step_eq, opcode]
    rfl
  apply ext_parts
  · have ticked : m.tick.Agrees memory (m.tick.readsOf i) := by
      rw [readsOf_tick]
      exact agree
    have regs := regs_execute_withMemory (m := m.tick) i
      (Instruction.eq_of_decode_extended m.opcode) ticked
    rw [stepped, step_eq]
    exact congrArg (fun r : Registers => { r with pc := r.pc + 1 }) regs
  · rw [memory_step_eq_setAll, opcode, ← Instruction.store?_decode, written_withMemory _ agree]
    rfl
  · rw [stepped, latches_skip, latches_execute]
    exact m.latches_step.symm

/-- **A step carries along what it does not read.** A byte put into a cell that the step does not read
is overwritten with what the step stores there, if it does, and otherwise changes nothing else. -/
theorem step_write (unread : x ∉ m.reads) (v : Byte) :
    (m.write x v).step = if x ∈ m.stores then m.step else m.step.write x v := by
  have agree : m.Agrees (m.memory.set x v) m.reads := by
    intro a read
    apply Memory.get_set_of_ne
    rintro rfl
    exact unread read
  have stepped : (m.write x v).step = _ := step_withMemory agree
  rw [stepped]
  by_cases stored : x ∈ m.stores
  · rw [if_pos stored, Memory.setAll_set_of_mem _ stored, ← memory_step_eq_setAll]
    rfl
  · rw [if_neg stored, Memory.setAll_set_of_notMem _ stored, ← memory_step_eq_setAll]
    rfl

/-! ## Runs -/

/-- A cell that no step reads is carried along until a step stores to it. -/
theorem iterate_write (n : ℕ) (unread : ∀ i < n, x ∉ (step^[i] m).reads) (v : Byte) :
    step^[n] (m.write x v) =
      if ∃ i < n, x ∈ (step^[i] m).stores then step^[n] m else (step^[n] m).write x v := by
  induction n with
  | zero =>
    rw [if_neg]
    · rfl
    · rintro ⟨i, before, -⟩
      exact Nat.not_lt_zero i before
  | succ n ih =>
    have earlier := ih fun i before => unread i (Nat.lt_succ_of_lt before)
    have sooner : (∃ i < n + 1, x ∈ (step^[i] m).stores) ↔
        (∃ i < n, x ∈ (step^[i] m).stores) ∨ x ∈ (step^[n] m).stores :=
      Nat.exists_lt_succ_right
    rw [Function.iterate_succ_apply', Function.iterate_succ_apply', earlier]
    by_cases stored : ∃ i < n, x ∈ (step^[i] m).stores
    · rw [if_pos stored, if_pos (sooner.mpr (.inl stored))]
    · rw [if_neg stored, step_write (unread n (Nat.lt_succ_self n)) v]
      by_cases now : x ∈ (step^[n] m).stores
      · rw [if_pos now, if_pos (sooner.mpr (.inr now))]
      · rw [if_neg now, if_neg]
        rintro before
        rcases sooner.mp before with before | now'
        · exact stored before
        · exact now now'

private theorem get_iterate_of_notMem_stores {n : ℕ}
    (untouched : ∀ i < n, x ∉ (step^[i] m).stores) :
    (step^[n] m).memory.get x = m.memory.get x := by
  induction n with
  | zero => rfl
  | succ n ih =>
    rw [Function.iterate_succ_apply', get_step_of_notMem_stores (untouched n (Nat.lt_succ_self n))]
    exact ih fun i before => untouched i (Nat.lt_succ_of_lt before)

/-- **A cell that is not read does not matter.** Where none of the next steps reads a cell, putting a
byte there changes neither the registers nor the latches they lead to, nor any other cell. The cell
itself holds what the steps last stored there, and keeps the byte if they never did. -/
theorem unread_cell_irrelevant (m : Machine) (x : Word) (v : Byte) (n : ℕ)
    (unread : ∀ i < n, x ∉ (step^[i] m).reads) :
    (step^[n] (m.write x v)).regs = (step^[n] m).regs ∧
    (step^[n] (m.write x v)).latches = (step^[n] m).latches ∧
    (∀ a, a ≠ x → (step^[n] (m.write x v)).memory.get a = (step^[n] m).memory.get a) ∧
    ((∃ i < n, x ∈ (step^[i] m).stores) →
      (step^[n] (m.write x v)).memory.get x = (step^[n] m).memory.get x) ∧
    ((¬∃ i < n, x ∈ (step^[i] m).stores) →
      (step^[n] (m.write x v)).memory.get x = v ∧
      (step^[n] m).memory.get x = m.memory.get x) := by
  have carried := iterate_write n unread v
  by_cases stored : ∃ i < n, x ∈ (step^[i] m).stores
  · rw [if_pos stored] at carried
    rw [carried]
    refine ⟨rfl, rfl, fun _ _ => rfl, fun _ => rfl, ?_⟩
    intro untouched
    exact absurd stored untouched
  · rw [if_neg stored] at carried
    rw [carried]
    refine ⟨rfl, rfl, ?_, ?_, ?_⟩
    · intro a other
      exact Memory.get_set_of_ne _ v other.symm
    · intro stored'
      exact absurd stored' stored
    · intro untouched
      refine ⟨Memory.get_set_self _ x v, get_iterate_of_notMem_stores ?_⟩
      intro i before now
      exact untouched ⟨i, before, now⟩

/-- A machine in front of a store of an operand byte where `hl` points. -/
def beforeStore : Machine :=
  ofProgram ⟨#[0x36, 0x42]⟩

private theorem opcode_beforeStore : beforeStore.opcode = 0x36 :=
  get_ofProgram _ 0 (by decide)

/-- The cell that the step stores to takes the operand either way, and the one above it keeps what was
put there. -/
theorem unread_cell_irrelevant_beforeStore :
    (∀ i < 1, 0x014D ∉ (step^[i] beforeStore).reads) ∧
    (∀ i < 1, 0x014E ∉ (step^[i] beforeStore).reads) ∧
    (beforeStore.write 0x014D 0x07).step.memory.get 0x014D = 0x42 ∧
    (beforeStore.write 0x014E 0x07).step.memory.get 0x014E = 0x07 := by
  have reads : beforeStore.reads = [0, 1] := by
    rw [Machine.reads, opcode_beforeStore]
    rfl
  have unread (x : Word) (behind : x ∉ ([0, 1] : List Word)) :
      ∀ i < 1, x ∉ (step^[i] beforeStore).reads := by
    intro i before
    obtain rfl : i = 0 := Nat.lt_one_iff.mp before
    exact reads ▸ behind
  have first := unread 0x014D (by decide)
  have second := unread 0x014E (by decide)
  have written : beforeStore.written (Sm83.store? beforeStore.opcode) = [(0x014D, 0x42)] := by
    have operand : beforeStore.memory.get (beforeStore.regs.pc + 1) = 0x42 :=
      get_ofProgram _ 1 (by decide)
    rw [opcode_beforeStore]
    exact congrArg (fun v => [((0x014D : Word), v)]) operand
  have stores : beforeStore.stores = [0x014D] := congrArg (List.map Prod.fst) written
  obtain ⟨-, -, -, stored, -⟩ := unread_cell_irrelevant beforeStore 0x014D 0x07 1 first
  obtain ⟨-, -, -, -, untouched⟩ := unread_cell_irrelevant beforeStore 0x014E 0x07 1 second
  refine ⟨first, second, ?_, ?_⟩
  · refine (stored ⟨0, Nat.zero_lt_one, ?_⟩).trans ?_
    · rw [Function.iterate_zero_apply, stores]
      exact List.mem_singleton_self _
    · rw [Function.iterate_one, memory_step_eq_setAll, written]
      exact Memory.get_set_self _ _ _
  · refine (untouched ?_).1
    rintro ⟨i, before, member⟩
    obtain rfl : i = 0 := Nat.lt_one_iff.mp before
    rw [Function.iterate_zero_apply, stores] at member
    exact absurd member (by decide)

end Machine

end Sm83
