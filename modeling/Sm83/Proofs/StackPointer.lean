import Mathlib.Algebra.BigOperators.Group.Finset.Basic
import Mathlib.Data.Nat.Count
import Sm83.Proofs.ReadFootprint

/-! How the stack pointer moves. A step that pushes moves it down by two, one that pops moves it up by
two, and apart from five opcodes that set it, no other step moves it. So over a run without these five
it follows the depth of the stack, the pushes less the pops (`sp_iterate`). Counting the two apart says
by how much it moves in either direction, and that it never leaves its parity
(`sp_iterate_eq_counts`). -/
namespace Sm83

/-- A number that is not negative counts the same as an integer. -/
theorem Word.ofInt_natCast (k : ℕ) : UInt16.ofInt k = .ofNat k := by
  apply UInt16.toNat_inj.mp
  rw [UInt16.ofInt, UInt16.toNat_ofNat', UInt16.toNat_ofNat']
  omega

/-- The opcodes that set the stack pointer to something of their own. -/
def stackPointerOpcodes : List Byte := [0x31, 0x33, 0x3B, 0xE8, 0xF9]

/-- Whether a store pushes a word. -/
def Store.pushes : Store → Bool
  | .pair _ | .returnAddress _ => true
  | .accumulator _ | .slot _ | .operand | .incremented | .decremented | .stackPointer => false

/-- Whether a load pops a word. -/
def Load.pops : Load → Bool
  | .stackTop => true
  | .accumulator _ | .atHl => false

namespace Instruction

/-- Whether an instruction sets the stack pointer to something of its own. -/
def setsStackPointer : Instruction → Bool
  | .loadWord .sp | .incrementPair .sp | .decrementPair .sp | .addSpOffset | .copyHlToSp => true
  | _ => false

theorem setsStackPointer_decode (o : Byte) :
    (decode o).setsStackPointer = decide (o ∈ stackPointerOpcodes) := by
  apply Byte.forall_of_fields
    (p := fun o => (decode o).setsStackPointer = decide (o ∈ stackPointerOpcodes))
  decide

end Instruction

namespace Machine

/-- Whether something is pushed, given what is stored on which condition. -/
def pushing (m : Machine) (store? : Option (Store × Condition)) : Bool :=
  match store? with
  | some (s, c) => s.pushes && c.holds m.regs.flags
  | none => false

/-- Whether something is popped, given what is loaded on which condition. -/
def popping (m : Machine) (load? : Option (Load × Condition)) : Bool :=
  match load? with
  | some (l, c) => l.pops && c.holds m.regs.flags
  | none => false

/-- Whether the next step pushes a word: a push, a restart, or a call that is taken. -/
def pushes (m : Machine) : Bool :=
  m.pushing (Sm83.store? m.opcode)

/-- Whether the next step pops a word: a pop, or a return that is taken. -/
def pops (m : Machine) : Bool :=
  m.popping (Sm83.load? m.opcode)

/-! ## The step -/

/-- An instruction moves the stack pointer by what it pushes or pops. -/
theorem sp_execute (m : Machine) (i : Instruction) (kept : i.setsStackPointer = false) :
    (m.execute i).regs.sp =
      if m.pushing i.store? then m.regs.sp - 2
      else if m.popping i.load? then m.regs.sp + 2
      else m.regs.sp := by
  -- what neither pushes nor pops leaves the stack pointer alone
  have quiet : ∀ n : Machine, m.pushing i.store? = false → m.popping i.load? = false →
      n.regs.sp = m.regs.sp → n.regs.sp =
        if m.pushing i.store? then m.regs.sp - 2
        else if m.popping i.load? then m.regs.sp + 2
        else m.regs.sp := by
    intro n unpushed unpopped same
    rw [unpushed, unpopped]
    exact same
  cases i with
  | push p | restart v => exact m.sp_push _
  | call c =>
    by_cases taken : c.holds m.regs.flags <;>
      simp [execute, taken, pushing, popping, Instruction.store?, Instruction.load?, Store.pushes]
  | pop p => exact (sp_setStackPair _ p _).trans m.sp_drop
  | ret c =>
    rw [regs_execute_ret]
    by_cases taken : c.holds m.regs.flags <;>
      simp [taken, pushing, popping, Instruction.store?, Instruction.load?, Load.pops]
  | retInterrupt => exact m.sp_drop
  | load t s =>
    apply quiet
    · cases t <;> cases s <;> rfl
    · cases s with
      | slot s => cases s <;> rfl
      | immediate => rfl
    · exact (sp_setSlot _ t _).trans (m.sp_pastSource s)
  | alu op s =>
    apply quiet _ rfl
    · cases s with
      | slot s => cases s <;> rfl
      | immediate => rfl
    · exact (sp_store _ .a _).trans (m.sp_pastSource s)
  | increment s | decrement s =>
    apply quiet
    · cases s <;> rfl
    · cases s <;> rfl
    · exact m.sp_store s _
  | storeA a => exact quiet _ rfl rfl (m.sp_pastAddress a)
  | loadA a => exact quiet _ rfl rfl ((sp_setSlot _ .a _).trans (m.sp_pastAddress a))
  | loadWord p | incrementPair p | decrementPair p =>
    apply quiet _ rfl rfl
    cases p with
    | sp => cases kept
    | bc | de | hl => rfl
  | jumpRelative c | jump c =>
    apply quiet _ rfl rfl
    by_cases taken : c.holds m.regs.flags <;> simp [execute, taken]
  | addSpOffset | copyHlToSp => cases kept
  | extended => exact quiet _ rfl rfl (m.sp_executeExtended m.opcode)
  | _ => exact quiet _ rfl rfl rfl

/-- A step moves the stack pointer by what it pushes or pops. -/
theorem sp_step {m : Machine} (kept : m.opcode ∉ stackPointerOpcodes) :
    m.step.regs.sp =
      if m.pushes then m.regs.sp - 2 else if m.pops then m.regs.sp + 2 else m.regs.sp := by
  have other : (Instruction.decode m.opcode).setsStackPointer = false := by
    rw [Instruction.setsStackPointer_decode, decide_eq_false kept]
  rw [pushes, pops, ← Instruction.store?_decode, ← Instruction.load?_decode, step_eq, sp_skip]
  exact m.tick.sp_execute (.decode m.opcode) other

/-- A step that pushes stores to the two cells below the stack pointer. -/
theorem stores_of_pushes {m : Machine} (pushes : m.pushes = true) :
    m.stores = [m.regs.sp - 1, m.regs.sp - 2] := by
  unfold Machine.pushes pushing at pushes
  split at pushes
  · rename_i s c table
    obtain ⟨word, holds⟩ := Bool.and_eq_true_iff.mp pushes
    simp only [stores, table, written, if_pos holds]
    cases s with
    | pair p | returnAddress n => rfl
    | accumulator a | slot s | operand | incremented | decremented | stackPointer => cases word
  · cases pushes

/-! ## The run -/

/-- By how many words the next step makes the stack deeper. -/
def growth (m : Machine) : ℤ :=
  if m.pushes then 1 else if m.pops then -1 else 0

/-- By how many words the next `n` steps make the stack deeper. -/
def depth (m : Machine) (n : ℕ) : ℤ :=
  ∑ i ∈ Finset.range n, (step^[i] m).growth

@[simp] theorem depth_zero (m : Machine) : m.depth 0 = 0 := rfl

theorem depth_succ (m : Machine) (n : ℕ) : m.depth (n + 1) = m.depth n + (step^[n] m).growth :=
  Finset.sum_range_succ _ n

/-- The stack pointer follows the depth of the stack. -/
theorem sp_iterate {m : Machine} {n : ℕ} (kept : ∀ f ∈ m.fetches n, f.opcode ∉ stackPointerOpcodes) :
    (step^[n] m).regs.sp = m.regs.sp - .ofInt (2 * m.depth n) := by
  induction n with
  | zero => exact (UInt16.sub_zero m.regs.sp).symm
  | succ n ih =>
    rw [fetches_succ, List.forall_mem_append, List.forall_mem_singleton] at kept
    rw [Function.iterate_succ_apply', sp_step kept.2, ih kept.1, depth_succ, mul_add,
      UInt16.ofInt_add]
    unfold growth
    cases (step^[n] m).pushes with
    | true =>
      have down : UInt16.ofInt (2 * 1) = 2 := rfl
      simp only [if_true, down]
      grind
    | false =>
      cases (step^[n] m).pops with
      | true =>
        have up : UInt16.ofInt (2 * -1) = -2 := rfl
        simp only [if_true, Bool.false_eq_true, if_false, up]
        grind
      | false =>
        have still : UInt16.ofInt (2 * 0) = 0 := rfl
        simp only [Bool.false_eq_true, if_false, still]
        grind

/-! ## Counting pushes and pops -/

/-- No opcode both pushes and pops. -/
theorem pops_of_pushes {m : Machine} (pushes : m.pushes = true) : m.pops = false := by
  have table : ∀ o, (Sm83.store? o).any (·.1.pushes) → (Sm83.load? o).any (·.1.pops) = false := by
    apply Byte.forall_of_fields
      (p := fun o => (Sm83.store? o).any (·.1.pushes) → (Sm83.load? o).any (·.1.pops) = false)
    decide
  have other := table m.opcode
  unfold Machine.pushes pushing at pushes
  unfold pops popping
  cases stored : Sm83.store? m.opcode with
  | none =>
    rw [stored] at pushes
    cases pushes
  | some s =>
    rw [stored] at pushes other
    have pops := other (Bool.and_eq_true_iff.mp pushes).1
    cases loaded : Sm83.load? m.opcode with
    | none => rfl
    | some l =>
      rw [loaded, Option.any_some] at pops
      simp only [pops, Bool.false_and]

/-- How many of the next `n` steps push a word. -/
def pushCount (m : Machine) (n : ℕ) : ℕ :=
  Nat.count (fun i => (step^[i] m).pushes) n

/-- How many of the next `n` steps pop a word. -/
def popCount (m : Machine) (n : ℕ) : ℕ :=
  Nat.count (fun i => (step^[i] m).pops) n

private theorem depth_eq_counts (m : Machine) (n : ℕ) :
    m.depth n = m.pushCount n - m.popCount n := by
  induction n with
  | zero => rfl
  | succ n ih =>
    rw [depth_succ, ih, growth, pushCount, pushCount, popCount, popCount, Nat.count_succ,
      Nat.count_succ]
    cases pushes : (step^[n] m).pushes with
    | true =>
      simp only [pops_of_pushes pushes, if_true, Bool.false_eq_true, if_false]
      omega
    | false =>
      cases (step^[n] m).pops <;> simp only [if_true, Bool.false_eq_true, if_false] <;> omega

/-- **The stack pointer counts pushes and pops.** Over steps that fetch none of the five opcodes that
set it, the stack pointer moves down by two for each push, restart and call that is taken, and up by
two for each pop and return that is taken. No other step moves it, and so it keeps its parity. -/
theorem sp_iterate_eq_counts (m : Machine) (n : ℕ)
    (kept : ∀ f ∈ m.fetches n, f.opcode ∉ stackPointerOpcodes) :
    (step^[n] m).regs.sp =
      m.regs.sp - .ofNat (2 * m.pushCount n) + .ofNat (2 * m.popCount n) ∧
    (∀ i < n, (step^[i] m).pushes = false → (step^[i] m).pops = false →
      (step^[i + 1] m).regs.sp = (step^[i] m).regs.sp) ∧
    (step^[n] m).regs.sp.toNat % 2 = m.regs.sp.toNat % 2 := by
  have counted : (step^[n] m).regs.sp =
      m.regs.sp - .ofNat (2 * m.pushCount n) + .ofNat (2 * m.popCount n) := by
    have apart : 2 * m.depth n = (2 * m.pushCount n : ℕ) + -((2 * m.popCount n : ℕ) : ℤ) := by
      rw [depth_eq_counts]
      omega
    rw [sp_iterate kept, apart, UInt16.ofInt_add, UInt16.ofInt_neg, Word.ofInt_natCast,
      Word.ofInt_natCast]
    grind
  refine ⟨counted, ?_, ?_⟩
  · intro i before unpushed unpopped
    have other : (step^[i] m).opcode ∉ stackPointerOpcodes :=
      kept _ (List.mem_map.mpr ⟨i, List.mem_range.mpr before, rfl⟩)
    rw [Function.iterate_succ_apply', sp_step other, unpushed, unpopped]
    rfl
  · rw [counted]
    simp only [UInt16.toNat_add, UInt16.toNat_sub, UInt16.toNat_ofNat']
    omega

/-- A machine near the lowest address, in front of a return that is not taken and a push. -/
def nearBottom : Machine :=
  { ofProgram ⟨#[0xC0, 0xC5]⟩ with regs.sp := 1 }

private theorem opcode_nearBottom : nearBottom.opcode = 0xC0 :=
  get_ofProgram _ 0 (by decide)

private theorem opcode_step_nearBottom : nearBottom.step.opcode = 0xC5 := by
  have untaken : nearBottom.step.regs.pc = 1 := by
    rw [pc_step, opcode_nearBottom]
    rfl
  have untouched : nearBottom.step.memory = nearBottom.memory := by
    rw [memory_step_eq_setAll, opcode_nearBottom]
    rfl
  rw [opcode, untaken, untouched]
  exact get_ofProgram _ 1 (by decide)

/-- The push goes below the lowest address and goes on at the highest one. -/
theorem sp_iterate_eq_counts_nearBottom :
    (∀ f ∈ nearBottom.fetches 2, f.opcode ∉ stackPointerOpcodes) ∧
    nearBottom.pops = false ∧ nearBottom.step.pushes = true ∧
    nearBottom.step.regs.sp = 1 ∧ (step^[2] nearBottom).regs.sp = 0xFFFF := by
  have unpushed : nearBottom.pushes = false :=
    congrArg (fun o => nearBottom.pushing (store? o)) opcode_nearBottom
  have unpopped : nearBottom.pops = false :=
    congrArg (fun o => nearBottom.popping (load? o)) opcode_nearBottom
  have pushes : nearBottom.step.pushes = true :=
    congrArg (fun o => nearBottom.step.pushing (store? o)) opcode_step_nearBottom
  have kept : ∀ f ∈ nearBottom.fetches 2, f.opcode ∉ stackPointerOpcodes := by
    apply forall_fetches_two
    · rw [opcode_fetch, opcode_nearBottom]
      decide
    · rw [opcode_fetch, opcode_step_nearBottom]
      decide
  obtain ⟨counted, still, -⟩ := sp_iterate_eq_counts nearBottom 2 kept
  have pushed : nearBottom.pushCount 2 = 1 := by
    simp [pushCount, Nat.count_succ, unpushed, pushes]
  have popped : nearBottom.popCount 2 = 0 := by
    simp [popCount, Nat.count_succ, unpopped, pops_of_pushes pushes]
  rw [pushed, popped] at counted
  exact ⟨kept, unpopped, pushes, still 0 Nat.zero_lt_two unpushed unpopped, counted⟩

end Machine

end Sm83
