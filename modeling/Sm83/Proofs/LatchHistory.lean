import Sm83.Proofs.Execution
import Sm83.Proofs.OpcodeTables
import Sm83.Proofs.StateUpdates

/-! The latches are decided by what was fetched. Each of them is written by a few opcodes only, some
of which one does not expect, such as the restarts and the returns on zero and on carry. So after any
number of steps a latch holds what the last fetch of such an opcode put there, and what it held in
the beginning if there was none (`latches_iterate`). -/
namespace Sm83

/-! ## The tables by opcode -/

/-- The opcodes that halt the machine. -/
def haltingOpcodes : List Byte := [0x10, 0x27]

/-- The opcodes that enable interrupts. -/
def enablingOpcodes : List Byte := [0xFB, 0xD9]

/-- The opcodes that disable interrupts: the one made for it, the returns on zero and on carry, taken
or not, and the restarts. -/
def disablingOpcodes : List Byte :=
  [0xF3, 0xC8, 0xD8, 0xC7, 0xCF, 0xD7, 0xDF, 0xE7, 0xEF, 0xF7, 0xFF]

/-- The opcodes that leave a diagnostic. -/
def reportedOpcodes : List Byte := 0x27 :: undefinedOpcodes

/-- The diagnostic that a fetch leaves. -/
def Fetch.diagnostic (f : Fetch) : Diagnostic :=
  if f.opcode = 0x27 then .unimplemented f.opcode f.pc else .illegal f.opcode f.pc

/-! ## The tables by instruction -/

namespace Instruction

/-- Whether an instruction halts the machine. -/
def halts : Instruction → Bool
  | .stop | .decimalAdjust => true
  | _ => false

/-- What an instruction puts into the interrupt latch, if anything. -/
def interrupts? : Instruction → Option Bool
  | .enableInterrupts | .retInterrupt => some true
  | .disableInterrupts | .restart _ => some false
  | .ret c => if c.dropsInterrupts then some false else none
  | _ => none

/-- The diagnostic that an instruction leaves at an address, if any. -/
def diagnostic? (pc : Word) : Instruction → Option Diagnostic
  | .undefined o => some (.illegal o pc)
  | .decimalAdjust => some (.unimplemented 0x27 pc)
  | _ => none

private theorem halts_decode (o : Byte) : (decode o).halts = decide (o ∈ haltingOpcodes) := by
  apply Byte.forall_of_fields (p := fun o => (decode o).halts = decide (o ∈ haltingOpcodes))
  decide

private theorem interrupts?_decode (o : Byte) :
    (decode o).interrupts? =
      if o ∈ enablingOpcodes ++ disablingOpcodes then some (decide (o ∈ enablingOpcodes))
      else none := by
  apply Byte.forall_of_fields (p := fun o => (decode o).interrupts? =
    if o ∈ enablingOpcodes ++ disablingOpcodes then some (decide (o ∈ enablingOpcodes)) else none)
  decide

/-- Whether an instruction leaves a diagnostic does not depend on where it stands. -/
private theorem diagnostic?_eq_none {i : Instruction} (silent : i.diagnostic? 0 = none)
    (pc : Word) : i.diagnostic? pc = none := by
  cases i with
  | undefined o | decimalAdjust => cases silent
  | _ => rfl

private theorem diagnostic?_decode (o : Byte) (pc : Word) :
    (decode o).diagnostic? pc =
      if o ∈ reportedOpcodes then some (Fetch.diagnostic ⟨pc, o⟩) else none := by
  have table : ∀ o, (decode o = .decimalAdjust ∧ o = 0x27) ∨
      (decode o = .undefined o ∧ o ≠ 0x27 ∧ o ∈ reportedOpcodes) ∨
      ((decode o).diagnostic? 0 = none ∧ o ∉ reportedOpcodes) := by
    apply Byte.forall_of_fields
    decide
  rcases table o with ⟨decoded, rfl⟩ | ⟨decoded, other, reported⟩ | ⟨silent, unreported⟩
  · have reported : 0x27 ∈ reportedOpcodes := by decide
    rw [decoded, if_pos reported, Fetch.diagnostic, if_pos rfl]
    rfl
  · rw [decoded, if_pos reported, Fetch.diagnostic, if_neg other]
    rfl
  · rw [diagnostic?_eq_none silent, if_neg unreported]

end Instruction

/-! ## The step -/

namespace Machine

/-- An instruction writes the latches its tables name, and only these. -/
theorem latches_execute (m : Machine) (i : Instruction) :
    (m.execute i).latches =
      { running := !i.halts && m.running
        interruptsEnabled := i.interrupts?.getD m.interruptsEnabled
        instructionCount := m.instructionCount
        lastDiagnostic := (i.diagnostic? m.regs.pc).or m.lastDiagnostic } := by
  cases i with
  | ret c =>
    rw [latches_execute_ret]
    cases c <;> rfl
  | jumpRelative c | jump c =>
    simp only [execute]
    split <;> rfl
  | call c =>
    simp only [execute]
    split
    · rw [latches_jumpTo, latches_push, latches_skip]
      rfl
    · rfl
  | load t s => exact (latches_setSlot _ t _).trans (m.latches_pastSource s)
  | alu op s => exact (latches_store _ .a _).trans (m.latches_pastSource s)
  | storeA a => exact m.latches_pastAddress a
  | loadA a => exact (latches_setSlot _ .a _).trans (m.latches_pastAddress a)
  | increment s | decrement s => exact m.latches_store s _
  | extended => exact m.latches_executeExtended m.opcode
  | _ => rfl

/-- A step counts, and otherwise writes the latches that its instruction writes. -/
theorem latches_step (m : Machine) :
    let i := Instruction.decode m.opcode
    m.step.latches =
      { running := !i.halts && m.running
        interruptsEnabled := i.interrupts?.getD m.interruptsEnabled
        instructionCount := m.instructionCount + 1
        lastDiagnostic := (i.diagnostic? m.regs.pc).or m.lastDiagnostic } := by
  rw [step_eq, latches_skip]
  exact m.tick.latches_execute (.decode m.opcode)

/-! Each latch after a step, by what the step fetched. -/

theorem running_step (m : Machine) :
    m.step.running = (!decide (m.opcode ∈ haltingOpcodes) && m.running) := by
  rw [← Instruction.halts_decode]
  exact congrArg Latches.running m.latches_step

theorem interruptsEnabled_step (m : Machine) :
    m.step.interruptsEnabled =
      if m.opcode ∈ enablingOpcodes ++ disablingOpcodes then decide (m.opcode ∈ enablingOpcodes)
      else m.interruptsEnabled := by
  have executed : m.step.interruptsEnabled =
      (Instruction.decode m.opcode).interrupts?.getD m.interruptsEnabled :=
    congrArg Latches.interruptsEnabled m.latches_step
  rw [executed, Instruction.interrupts?_decode]
  split <;> rfl

theorem instructionCount_step (m : Machine) : m.step.instructionCount = m.instructionCount + 1 :=
  congrArg Latches.instructionCount m.latches_step

theorem lastDiagnostic_step (m : Machine) :
    m.step.lastDiagnostic =
      if m.opcode ∈ reportedOpcodes then some m.fetch.diagnostic else m.lastDiagnostic := by
  have executed : m.step.lastDiagnostic =
      ((Instruction.decode m.opcode).diagnostic? m.regs.pc).or m.lastDiagnostic :=
    congrArg Latches.lastDiagnostic m.latches_step
  rw [executed, Instruction.diagnostic?_decode]
  split <;> rfl

/-! ## The run -/

theorem instructionCount_iterate (m : Machine) (n : ℕ) :
    (step^[n] m).instructionCount = m.instructionCount + .ofNat n := by
  induction n with
  | zero => simp
  | succ n ih =>
    rw [Function.iterate_succ_apply', instructionCount_step, ih, UInt64.ofNat_add,
      UInt64.add_assoc]
    rfl

theorem running_iterate (m : Machine) (n : ℕ) :
    (step^[n] m).running = true ↔
      m.running = true ∧ ∀ f ∈ m.fetches n, f.opcode ∉ haltingOpcodes := by
  induction n with
  | zero => simp
  | succ n ih =>
    rw [Function.iterate_succ_apply', running_step, Bool.and_eq_true, ih, fetches_succ,
      List.forall_mem_append, List.forall_mem_singleton]
    simp only [fetch, Bool.not_eq_true', decide_eq_false_iff_not]
    tauto

/-- A machine that runs has run all along. -/
theorem running_iterate_of_le {m : Machine} {k n : ℕ} (shorter : k ≤ n)
    (running : (step^[n] m).running = true) : (step^[k] m).running = true := by
  rw [running_iterate] at running ⊢
  exact ⟨running.1, fun f fetched => running.2 f (m.fetches_subset shorter fetched)⟩

/-- A machine that goes past one opcode and halts on the next one halts behind two steps. -/
theorem haltingTime_eq_two {m : Machine} (running : m.running = true)
    (passes : m.opcode ∉ haltingOpcodes) (halts : m.step.opcode ∈ haltingOpcodes) :
    m.haltingTime = (2 : ℕ) := by
  have runs : m.step.running = true := by simp [running_step, passes, running]
  have stops : m.step.step.running = false := by simp [running_step, halts]
  rw [haltingTime_eq_step_add_one running, haltingTime_eq_step_add_one runs,
    haltingTime_eq_zero stops]
  rfl

/-- A latch that some opcodes write, and all others leave alone, holds after any number of steps what
the last fetch of such an opcode wrote. -/
theorem latch_iterate {α : Type} (latch : Machine → α) (opcodes : List Byte) (value : Fetch → α)
    (stepped : ∀ m : Machine, latch m.step = if m.opcode ∈ opcodes then value m.fetch else latch m)
    (m : Machine) (n : ℕ) :
    latch (step^[n] m) = ((m.fetches n).filter (·.opcode ∈ opcodes)).getLast?.elim (latch m) value := by
  induction n with
  | zero => rfl
  | succ n ih =>
    rw [Function.iterate_succ_apply', stepped, fetches_succ, List.filter_append]
    -- a fetch that writes is the last one that does; any other leaves the last one as it was
    by_cases last : (step^[n] m).opcode ∈ opcodes
    · simp [last]
    · simpa [last] using ih

/-- **The latches after any number of steps.** The machine runs if it ran and fetched no halting
opcode. Interrupts are enabled if the last fetch that writes their latch enables them. The diagnostic
is that of the last fetch that leaves one. The count has grown by the number of steps. -/
theorem latches_iterate (m : Machine) (n : ℕ) :
    ((step^[n] m).running = true ↔
      m.running = true ∧ ∀ f ∈ m.fetches n, f.opcode ∉ haltingOpcodes) ∧
    (step^[n] m).interruptsEnabled =
      ((m.fetches n).filter (·.opcode ∈ enablingOpcodes ++ disablingOpcodes)).getLast?.elim
        m.interruptsEnabled (fun f => decide (f.opcode ∈ enablingOpcodes)) ∧
    (step^[n] m).lastDiagnostic =
      ((m.fetches n).filter (·.opcode ∈ reportedOpcodes)).getLast?.elim
        m.lastDiagnostic (fun f => some f.diagnostic) ∧
    (step^[n] m).instructionCount = m.instructionCount + .ofNat n := by
  refine ⟨m.running_iterate n, ?_, ?_, m.instructionCount_iterate n⟩
  · exact latch_iterate interruptsEnabled _ (fun f => decide (f.opcode ∈ enablingOpcodes))
      interruptsEnabled_step m n
  · exact latch_iterate lastDiagnostic _ (fun f => some f.diagnostic) lastDiagnostic_step m n

end Machine

end Sm83
