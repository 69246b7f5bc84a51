import Sm83.Proofs.StackDiscipline
import Sm83.Proofs.StackPointer

/-! Calls and returns. A call leaves the address behind itself on the stack, and a return that finds
the two cells and the stack pointer as the call left them goes there, however many steps lie between
(`return_matches_call`). A body finds them so again if it pops as often as it pushes, nested calls
included, and stores nothing else there (`Balanced.get_iterate`). -/
namespace Sm83

namespace Word

/-- Counting downwards, the address above comes last. -/
theorem down_last (p : Word) : p.down 65535 = p + 1 := by
  have up : UInt16.ofNat 65535 = -1 := rfl
  rw [down, up]
  grind

end Word

namespace Instruction

/-- What jumps to the word on top of the stack pops it, and stores nothing. -/
private theorem load?_of_transfer? {i : Instruction} {c : Condition}
    (returns : i.transfer? = some (.stackTop, c)) :
    i.load? = some (.stackTop, c) ∧ i.store? = none ∧ i.setsStackPointer = false := by
  cases i with
  | ret d =>
    cases returns
    exact ⟨rfl, rfl, rfl⟩
  | retInterrupt =>
    cases returns
    exact ⟨rfl, rfl, rfl⟩
  | _ => cases returns

end Instruction

namespace Machine

/-- The next step calls a subroutine that is to come back to an address: it is a call whose condition
holds, and the address stands behind its operand, or a restart, and the address stands behind it. -/
def Calls (m : Machine) (r : Word) : Prop :=
  ∃ length c, store? m.opcode = some (.returnAddress length, c) ∧ c.holds m.regs.flags = true ∧
    r = m.regs.pc + length

/-- The next step returns from a subroutine, on a condition that holds if there is one. -/
def Returns (m : Machine) : Prop :=
  ∃ c, transfer? m.opcode = some (.stackTop, c) ∧ c.holds m.regs.flags = true

variable {m : Machine} {r : Word} {n : ℕ}

/-! ## The two steps -/

/-- The opcodes that set the stack pointer store nothing. -/
private theorem store?_of_mem_stackPointerOpcodes {o : Byte} (member : o ∈ stackPointerOpcodes) :
    store? o = none := by
  simp only [stackPointerOpcodes, List.mem_cons, List.not_mem_nil, or_false] at member
  rcases member with rfl | rfl | rfl | rfl | rfl <;> rfl

theorem Calls.pushes (calls : m.Calls r) : m.pushes = true := by
  obtain ⟨length, c, table, holds, -⟩ := calls
  rw [Machine.pushes, table]
  exact holds

theorem Calls.sp_step (calls : m.Calls r) : m.step.regs.sp = m.regs.sp - 2 := by
  have kept : m.opcode ∉ stackPointerOpcodes := by
    obtain ⟨length, c, table, -⟩ := calls
    intro member
    have none := store?_of_mem_stackPointerOpcodes member
    rw [table] at none
    cases none
  rw [Machine.sp_step kept, if_pos calls.pushes]

/-- A call pushes the address behind itself. -/
theorem Calls.memory_step (calls : m.Calls r) :
    m.step.memory = (m.memory.set (m.regs.sp - 1) r.high).set (m.regs.sp - 2) r.low := by
  obtain ⟨length, c, table, holds, rfl⟩ := calls
  rw [memory_step_eq_setAll, table, written, if_pos holds]
  rfl

private theorem Calls.get_step (calls : m.Calls r) :
    m.step.memory.get (m.regs.sp - 2) = r.low ∧ m.step.memory.get (m.regs.sp - 1) = r.high := by
  have apart := m.regs.sp.sub_one_ne_sub_two.symm
  rw [calls.memory_step]
  constructor
  · exact Memory.get_set_self _ _ _
  · rw [Memory.get_set_of_ne _ _ apart, Memory.get_set_self]

/-- A return goes to the word on top of the stack and pops it. -/
theorem Returns.step (returns : m.Returns) :
    m.step.regs.pc = .ofBytes (m.memory.get (m.regs.sp + 1)) (m.memory.get m.regs.sp) ∧
    m.step.regs.sp = m.regs.sp + 2 := by
  obtain ⟨c, table, holds⟩ := returns
  rw [← Instruction.transfer?_decode] at table
  obtain ⟨load, store, other⟩ := Instruction.load?_of_transfer? table
  constructor
  · rw [pc_step, table, pcAfter_taken holds]
    rfl
  · have kept : m.opcode ∉ stackPointerOpcodes := by
      rw [Instruction.setsStackPointer_decode] at other
      exact of_decide_eq_false other
    have pops : m.pops = true := by
      rw [pops, ← Instruction.load?_decode, load]
      exact holds
    have pushes : m.pushes = false := by
      rw [pushes, ← Instruction.store?_decode, store]
      rfl
    rw [Machine.sp_step kept, pushes, pops]
    rfl

/-- A return that finds an address on the stack goes there, and leaves the stack without it. -/
theorem Returns.step_to (returns : m.Returns) {p : Word} (sp : m.regs.sp = p - 2)
    (low : m.memory.get (p - 2) = r.low) (high : m.memory.get (p - 1) = r.high) :
    m.step.regs.pc = r ∧ m.step.regs.sp = p := by
  have above : p - 2 + 2 = p := UInt16.sub_add_cancel _ _
  obtain ⟨pc, popped⟩ := returns.step
  rw [sp, Word.sub_two_add_one, low, high, Word.ofBytes_high_low] at pc
  rw [sp, above] at popped
  exact ⟨pc, popped⟩

/-! ## The body between them -/

/-- The next steps use the stack by pushes and pops alone, and leave it as they found it: they never
pop below its top, never hold more words above than there is room for, store to its uppermost word
by no other means, and pop in the end as many words as they pushed. Calls push, and returns pop. -/
structure Balanced (m : Machine) (n : ℕ) : Prop where
  kept : ∀ f ∈ m.fetches n, f.opcode ∉ stackPointerOpcodes
  within : ∀ i ≤ n, 0 ≤ m.depth i ∧ m.depth i ≤ 32767
  level : m.depth n = 0
  apart : ∀ i < n, (step^[i] m).pushes = false →
    m.regs.sp ∉ (step^[i] m).stores ∧ m.regs.sp + 1 ∉ (step^[i] m).stores

namespace Balanced

theorem sp_iterate (balanced : m.Balanced n) {i : ℕ} (early : i ≤ n) :
    (step^[i] m).regs.sp = m.regs.sp.down (2 * (m.depth i).toNat) := by
  have kept : ∀ f ∈ m.fetches i, f.opcode ∉ stackPointerOpcodes :=
    fun f fetched => balanced.kept f (m.fetches_subset early fetched)
  have depth := Int.toNat_of_nonneg (balanced.within i early).1
  have counted : 2 * m.depth i = (2 * (m.depth i).toNat : ℕ) := by omega
  rw [Machine.sp_iterate kept, counted, Word.ofInt_natCast, Word.down]

/-- Counted downwards from the stack pointer, the cells of the word on top of the stack are the first
and the last, and so no push reaches them as long as there is room. -/
theorem get_iterate (balanced : m.Balanced n) {k : ℕ} (own : k = 0 ∨ k = 65535) {i : ℕ}
    (early : i ≤ n) :
    (step^[i] m).memory.get (m.regs.sp.down k) = m.memory.get (m.regs.sp.down k) := by
  have cell : m.regs.sp.down k = m.regs.sp ∨ m.regs.sp.down k = m.regs.sp + 1 := by
    rcases own with rfl | rfl
    · exact .inl (Word.down_zero _)
    · exact .inr (Word.down_last _)
  induction i with
  | zero => rfl
  | succ i ih =>
    rw [Function.iterate_succ_apply', get_step_of_notMem_stores, ih (Nat.le_of_succ_le early)]
    cases pushes : (step^[i] m).pushes with
    | false =>
      obtain ⟨low, high⟩ := balanced.apart i early pushes
      rcases cell with cell | cell
      · rw [cell]
        exact low
      · rw [cell]
        exact high
    | true =>
      have room : m.depth i + 1 ≤ 32767 := by
        have deeper := (balanced.within (i + 1) early).2
        rwa [depth_succ, growth, if_pos pushes] at deeper
      have start := (balanced.within i (Nat.le_of_succ_le early)).1
      let d := 2 * (m.depth i).toNat
      have sp : (step^[i] m).regs.sp = m.regs.sp.down d :=
        balanced.sp_iterate (Nat.le_of_succ_le early)
      have first : (step^[i] m).regs.sp - 1 = m.regs.sp.down (d + 1) := by
        rw [sp, Word.down_sub_one]
      have second : (step^[i] m).regs.sp - 2 = m.regs.sp.down (d + 2) := by
        rw [← Word.down_sub_one, ← first]
        grind
      rw [stores_of_pushes pushes, first, second]
      simp only [List.mem_cons, List.not_mem_nil, or_false, Word.down_eq_down]
      omega

end Balanced

/-- **A return matches its call.** A call leaves the address behind itself on the stack. Whatever steps
follow, a return that finds the stack pointer and the two cells below the caller's stack as the call
left them goes to this address and gives the caller its stack back; and a balanced body ends with
them so. -/
theorem return_matches_call (m : Machine) (r : Word) (calls : m.Calls r) :
    m.step.regs.sp = m.regs.sp - 2 ∧
    m.step.memory.get (m.regs.sp - 2) = r.low ∧
    m.step.memory.get (m.regs.sp - 1) = r.high ∧
    (∀ n, let u := step^[n] m.step
      u.regs.sp = m.regs.sp - 2 →
      u.memory.get (m.regs.sp - 2) = m.step.memory.get (m.regs.sp - 2) →
      u.memory.get (m.regs.sp - 1) = m.step.memory.get (m.regs.sp - 1) →
      u.Returns → u.step.regs.pc = r ∧ u.step.regs.sp = m.regs.sp) ∧
    (∀ n, m.step.Balanced n → let u := step^[n] m.step
      u.regs.sp = m.regs.sp - 2 ∧
      u.memory.get (m.regs.sp - 2) = m.step.memory.get (m.regs.sp - 2) ∧
      u.memory.get (m.regs.sp - 1) = m.step.memory.get (m.regs.sp - 1) ∧
      (u.Returns → u.step.regs.pc = r ∧ u.step.regs.sp = m.regs.sp)) := by
  have sp := calls.sp_step
  obtain ⟨low, high⟩ := calls.get_step
  have matched : ∀ n, let u := step^[n] m.step
      u.regs.sp = m.regs.sp - 2 →
      u.memory.get (m.regs.sp - 2) = m.step.memory.get (m.regs.sp - 2) →
      u.memory.get (m.regs.sp - 1) = m.step.memory.get (m.regs.sp - 1) →
      u.Returns → u.step.regs.pc = r ∧ u.step.regs.sp = m.regs.sp := by
    intro n u back keptLow keptHigh returns
    exact returns.step_to back (keptLow.trans low) (keptHigh.trans high)
  refine ⟨sp, low, high, matched, ?_⟩
  intro n balanced u
  have back : u.regs.sp = m.regs.sp - 2 := by
    have level := balanced.sp_iterate le_rfl
    rw [balanced.level] at level
    exact level.trans ((Word.down_zero _).trans sp)
  have keptLow : u.memory.get (m.regs.sp - 2) = m.step.memory.get (m.regs.sp - 2) := by
    have kept := balanced.get_iterate (.inl rfl) le_rfl
    rwa [Word.down_zero, sp] at kept
  have keptHigh : u.memory.get (m.regs.sp - 1) = m.step.memory.get (m.regs.sp - 1) := by
    have kept := balanced.get_iterate (.inr rfl) le_rfl
    have cell : m.regs.sp - 2 + 1 = m.regs.sp - 1 := by grind
    rwa [Word.down_last, sp, cell] at kept
  exact ⟨back, keptLow, keptHigh, matched n back keptLow keptHigh⟩

/-- A machine in front of a call of a subroutine that pushes a pair, pops it again and returns. -/
def atCall : Machine :=
  ofProgram ⟨#[0xCD, 0x04, 0x00, 0x10, 0xC5, 0xC1, 0xC9]⟩

private theorem opcode_atCall : atCall.opcode = 0xCD :=
  get_ofProgram _ 0 (by decide)

private theorem calls_atCall : atCall.Calls 0x0003 :=
  ⟨3, .always, congrArg store? opcode_atCall, rfl, rfl⟩

private theorem sp_step_atCall : atCall.step.regs.sp = 0xFFFC :=
  calls_atCall.sp_step

private theorem pc_step_atCall : atCall.step.regs.pc = 0x0004 := by
  have low : atCall.memory.get 1 = 0x04 := get_ofProgram _ 1 (by decide)
  have high : atCall.memory.get 2 = 0x00 := get_ofProgram _ 2 (by decide)
  rw [pc_step, opcode_atCall]
  exact congrArg₂ Word.ofBytes high low

private theorem get_step_atCall {a : Word} (code : a ∈ ([4, 5, 6] : List Word)) :
    atCall.step.memory.get a = atCall.memory.get a := by
  apply get_step_of_notMem_stores
  rw [stores_of_pushes calls_atCall.pushes]
  simp only [List.mem_cons, List.not_mem_nil, or_false] at code
  rcases code with rfl | rfl | rfl <;> decide

private theorem opcode_step_atCall : atCall.step.opcode = 0xC5 := by
  rw [opcode, pc_step_atCall, get_step_atCall (by decide)]
  exact get_ofProgram _ 4 (by decide)

private theorem pushes_step_atCall : atCall.step.pushes = true :=
  congrArg (fun o => atCall.step.pushing (store? o)) opcode_step_atCall

/-- The push in the subroutine leaves the rest of the code behind it alone. -/
private theorem step_step_atCall :
    atCall.step.step.regs.pc = 0x0005 ∧ atCall.step.step.opcode = 0xC1 ∧
    atCall.step.step.memory.get 6 = 0xC9 := by
  have pc : atCall.step.step.regs.pc = 0x0005 := by
    have next : atCall.step.step.regs.pc = atCall.step.regs.pc + 1 + 0 := by
      rw [pc_step, opcode_step_atCall]
      rfl
    rw [next, pc_step_atCall]
    rfl
  have code {a : Word} (inside : a ∈ ([5, 6] : List Word)) :
      atCall.step.step.memory.get a = atCall.memory.get a := by
    have behind : a ∉ atCall.step.stores := by
      rw [stores_of_pushes pushes_step_atCall, sp_step_atCall]
      simp only [List.mem_cons, List.not_mem_nil, or_false] at inside
      rcases inside with rfl | rfl <;> decide
    rw [get_step_of_notMem_stores behind, get_step_atCall (List.mem_cons_of_mem 4 inside)]
  refine ⟨pc, ?_, ?_⟩
  · rw [opcode, pc, code (by decide)]
    exact get_ofProgram _ 5 (by decide)
  · rw [code (by decide)]
    exact get_ofProgram _ 6 (by decide)

private theorem stores_step_step_atCall : atCall.step.step.stores = [] :=
  congrArg (fun o => (atCall.step.step.written (store? o)).map Prod.fst) step_step_atCall.2.1

private theorem balanced_atCall : atCall.step.Balanced 2 := by
  obtain ⟨-, second, -⟩ := step_step_atCall
  have pushed : atCall.step.step.pushes = false :=
    congrArg (fun o => atCall.step.step.pushing (store? o)) second
  have popped : atCall.step.step.pops = true :=
    congrArg (fun o => atCall.step.step.popping (load? o)) second
  have deeper : atCall.step.depth 1 = 1 := by
    rw [depth_succ, depth_zero, Function.iterate_zero_apply, growth, if_pos pushes_step_atCall]
    rfl
  have level : atCall.step.depth 2 = 0 := by
    rw [depth_succ, deeper, Function.iterate_one, growth, pushed, popped]
    rfl
  constructor
  · apply forall_fetches_two
    · rw [opcode_fetch, opcode_step_atCall]
      decide
    · rw [opcode_fetch, second]
      decide
  · intro i early
    obtain rfl | rfl | rfl : i = 0 ∨ i = 1 ∨ i = 2 := by omega
    · rw [depth_zero]
      decide
    · rw [deeper]
      decide
    · rw [level]
      decide
  · exact level
  · intro i before unpushed
    obtain rfl | rfl : i = 0 ∨ i = 1 := by omega
    · exact absurd (pushes_step_atCall.symm.trans unpushed) (by decide)
    · rw [Function.iterate_one, stores_step_step_atCall]
      exact ⟨List.not_mem_nil, List.not_mem_nil⟩

/-- The subroutine returns behind its call. -/
theorem return_matches_call_atCall :
    atCall.Calls 0x0003 ∧ atCall.step.Balanced 2 ∧ (step^[2] atCall.step).Returns ∧
    (step^[2] atCall.step).regs.sp = 0xFFFC ∧
    (step^[3] atCall.step).regs.pc = 0x0003 ∧ (step^[3] atCall.step).regs.sp = 0xFFFE := by
  obtain ⟨pc, second, code⟩ := step_step_atCall
  have fetched : (step^[2] atCall.step).opcode = 0xC9 := by
    have behind : (step^[2] atCall.step).regs.pc = 0x0006 := by
      have next : (step^[2] atCall.step).regs.pc = atCall.step.step.regs.pc + 1 + 0 := by
        rw [Function.iterate_succ_apply', Function.iterate_one, pc_step, second]
        rfl
      rw [next, pc]
      rfl
    have untouched : 6 ∉ atCall.step.step.stores := by
      rw [stores_step_step_atCall]
      exact List.not_mem_nil
    rw [opcode, behind, Function.iterate_succ_apply', Function.iterate_one,
      get_step_of_notMem_stores untouched, code]
  have returns : (step^[2] atCall.step).Returns :=
    ⟨.always, congrArg transfer? fetched, rfl⟩
  obtain ⟨-, -, -, matched, body⟩ := return_matches_call atCall 0x0003 calls_atCall
  obtain ⟨sp, low, high, -⟩ := body 2 balanced_atCall
  obtain ⟨there, above⟩ := matched 2 sp low high returns
  rw [Function.iterate_succ_apply' step 2]
  exact ⟨calls_atCall, balanced_atCall, returns, sp, there, above⟩

end Machine

end Sm83
