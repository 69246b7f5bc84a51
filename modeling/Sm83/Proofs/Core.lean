import Sm83.Proofs.BoundedRun

/-! What execution reads. The registers and the memory are the core of a machine. The rest of it, its
latches, is written by steps and read by none, so the core after a step is a function of the core
before (`core_step`). Machines with the same core therefore fetch the same and go through the same
cores, and they end their runs alike if they agree on whether they run (`core_decides_execution`). Of
the latches it is the count alone that starts from an arbitrary number and is only added to, so a
machine with a greater count goes through the same machines with greater counts (`result_run`). -/
namespace Sm83

/-- The part of a machine that execution reads. -/
structure Core where
  regs : Registers
  memory : Memory

namespace Machine

/-- The registers and the memory of a machine. -/
def core (m : Machine) : Core where
  regs := m.regs
  memory := m.memory

/-- The machine with other latches. -/
def withLatches (m : Machine) (l : Latches) : Machine where
  regs := m.regs
  memory := m.memory
  running := l.running
  interruptsEnabled := l.interruptsEnabled
  instructionCount := l.instructionCount
  lastDiagnostic := l.lastDiagnostic

/-! ## Instructions -/

section Latches

variable (m : Machine) (l : Latches)

private theorem slot_withLatches (s : Slot) : (m.withLatches l).slot s = m.slot s := by
  cases s <;> rfl

private theorem source_withLatches (s : Source) : (m.withLatches l).source s = m.source s := by
  cases s with
  | slot s => exact m.slot_withLatches l s
  | immediate => rfl

private theorem pastSource_withLatches (s : Source) :
    (m.withLatches l).pastSource s = (m.pastSource s).withLatches l := by
  cases s <;> rfl

private theorem setSlot_withLatches (s : Slot) (v : Byte) :
    (m.withLatches l).setSlot s v = (m.setSlot s v).withLatches l := by
  cases s <;> rfl

private theorem store_withLatches (s : Slot) (r : Alu.Result Byte) :
    (m.withLatches l).store s r = (m.store s r).withLatches l :=
  setSlot_withLatches (m.setFlags r.flags) l s r.value

private theorem core_executeExtended_withLatches (o : Byte) :
    ((m.withLatches l).executeExtended o).core = (m.executeExtended o).core := by
  simp only [executeExtended, slot_withLatches]
  cases Extended.decode o with
  | shift f =>
    simp only [store_withLatches]
    rfl
  | testBit i => rfl
  | setBit i on =>
    simp only [setSlot_withLatches]
    rfl

/-- No instruction reads a latch. -/
theorem core_execute_withLatches (i : Instruction) :
    ((m.withLatches l).execute i).core = (m.execute i).core := by
  cases i with
  | load t s =>
    simp only [execute, source_withLatches, pastSource_withLatches, setSlot_withLatches]
    rfl
  | alu op s =>
    simp only [execute, source_withLatches, pastSource_withLatches, store_withLatches]
    rfl
  | increment s | decrement s =>
    simp only [execute, slot_withLatches, store_withLatches]
    rfl
  | storeA a | loadA a => cases a <;> rfl
  | jumpRelative c | jump c | call c =>
    by_cases taken : c.holds m.regs.flags <;>
      simp only [execute, withLatches, flags_skip, taken] <;> rfl
  | ret c =>
    -- a return may write the interrupt latch, which is in neither of the two parts
    simp only [core, regs_execute_ret, memory_execute_ret]
    by_cases taken : c.holds m.regs.flags <;> simp only [withLatches, taken] <;> rfl
  | extended => exact m.core_executeExtended_withLatches l m.opcode
  | _ => rfl

private theorem core_step_withLatches : (m.withLatches l).step.core = m.step.core := by
  let i := Instruction.decode m.opcode
  -- the instruction finds itself counted already
  let ticked : Latches := { l with instructionCount := l.instructionCount + 1 }
  have executed : ((m.withLatches ticked).execute i).core = (m.tick.execute i).core :=
    core_execute_withLatches m.tick ticked i
  rw [step_eq, step_eq]
  exact congrArg (fun c : Core => Core.mk { c.regs with pc := c.regs.pc + 1 } c.memory) executed

end Latches

end Machine

/-! ## Steps -/

namespace Core

/-- A machine with a given core whose latches are as at the start. -/
def machine (c : Core) : Machine where
  regs := c.regs
  memory := c.memory
  running := true
  interruptsEnabled := false
  instructionCount := 0
  lastDiagnostic := none

/-- The core after a step. -/
def step (c : Core) : Core :=
  c.machine.step.core

end Core

namespace Machine

/-- The core after a step is decided by the core before. -/
theorem core_step (m : Machine) : m.step.core = m.core.step :=
  m.core.machine.core_step_withLatches m.latches

theorem core_iterate (m : Machine) (n : ℕ) : (step^[n] m).core = Core.step^[n] m.core :=
  Function.Semiconj.iterate_right core_step n m

section TwoMachines

variable {s t : Machine}

private theorem core_iterate_eq (same : s.core = t.core) (n : ℕ) :
    (step^[n] s).core = (step^[n] t).core := by
  rw [core_iterate, core_iterate, same]

theorem fetch_eq (same : s.core = t.core) : s.fetch = t.fetch :=
  congrArg (fun c : Core => c.machine.fetch) same

private theorem fetches_eq (same : s.core = t.core) (n : ℕ) : s.fetches n = t.fetches n := by
  apply List.map_congr_left
  intro i _
  exact fetch_eq (core_iterate_eq same i)

private theorem running_iterate_eq (same : s.core = t.core) (latch : s.running = t.running)
    (n : ℕ) : (step^[n] s).running = (step^[n] t).running := by
  rw [Bool.eq_iff_iff, running_iterate, running_iterate, fetches_eq same, latch]

private theorem haltingTime_eq (same : s.core = t.core) (latch : s.running = t.running) :
    s.haltingTime = t.haltingTime := by
  simp only [haltingTime, running_iterate_eq same latch]

end TwoMachines

/-! ## Counts -/

/-- The machine with a count that is greater by some number of instructions. -/
def addCount (m : Machine) (c : UInt64) : Machine :=
  { m with instructionCount := m.instructionCount + c }

@[simp] theorem addCount_zero (m : Machine) : m.addCount 0 = m := by
  rw [addCount, UInt64.add_zero]

/-- What a step does to a machine it does to the machine with a greater count. -/
theorem step_addCount (m : Machine) (c : UInt64) : (m.addCount c).step = m.step.addCount c := by
  have core : (m.addCount c).step.core = m.step.core := by
    rw [core_step, core_step]
    rfl
  have running : (m.addCount c).step.running = m.step.running := by
    rw [running_step, running_step]
    rfl
  have interrupts : (m.addCount c).step.interruptsEnabled = m.step.interruptsEnabled := by
    rw [interruptsEnabled_step, interruptsEnabled_step]
    rfl
  have count : (m.addCount c).step.instructionCount = m.step.instructionCount + c := by
    calc (m.addCount c).step.instructionCount
        = m.instructionCount + c + 1 := instructionCount_step (m.addCount c)
      _ = m.instructionCount + 1 + c := by
        rw [UInt64.add_assoc, UInt64.add_comm c 1, ← UInt64.add_assoc]
      _ = m.step.instructionCount + c := by rw [instructionCount_step]
  have diagnostic : (m.addCount c).step.lastDiagnostic = m.step.lastDiagnostic := by
    rw [lastDiagnostic_step, lastDiagnostic_step]
    rfl
  apply ext_parts
  · exact congrArg Core.regs core
  · exact congrArg Core.memory core
  · rw [latches, running, interrupts, count, diagnostic]
    rfl

private theorem iterate_addCount (m : Machine) (c : UInt64) (n : ℕ) :
    step^[n] (m.addCount c) = (step^[n] m).addCount c := by
  have commute : Function.Semiconj (addCount · c) step step := fun m => (m.step_addCount c).symm
  exact (commute.iterate_right n m).symm

end Machine

/-! ## Runs -/

namespace Session

/-- What a run yields apart from the latches that are not read: its outcome, the core it leaves and
whether the machine still runs. -/
def Ended.yield (e : Ended) : Outcome × Core × Bool :=
  (e.outcome, e.session.machine.core, e.session.machine.running)

section TwoSessions

variable {s t : Session}

private theorem yield_endedAfter_eq (same : s.machine.core = t.machine.core)
    (latch : s.machine.running = t.machine.running) (n : ℕ) :
    (s.endedAfter n).yield = (t.endedAfter n).yield := by
  have core := Machine.core_iterate_eq same n
  have running := Machine.running_iterate_eq same latch n
  simp only [Ended.yield, endedAfter, machine_iterate, core, running]

private theorem yield_runFor_eq (same : s.machine.core = t.machine.core)
    (latch : s.machine.running = t.machine.running) (budget : ℕ) :
    (s.runFor budget).yield = (t.runFor budget).yield := by
  obtain ⟨n, least, ended⟩ := s.runFor_eq_endedAfter budget
  obtain ⟨k, least', ended'⟩ := t.runFor_eq_endedAfter budget
  have steps : n = k := by
    rw [Machine.haltingTime_eq same latch, ← least'] at least
    exact Nat.cast_inj.mp least
  rw [ended, ended', steps, yield_endedAfter_eq same latch]

theorem yield_run_eq (same : s.machine.core = t.machine.core)
    (latch : s.machine.running = t.machine.running) (budget : Option ℕ) :
    (s.run budget).map Ended.yield = (t.run budget).map Ended.yield := by
  cases budget with
  | some budget => exact congrArg some (yield_runFor_eq same latch budget)
  | none =>
    have yields := yield_runFor_eq same latch longest
    have reasons : (s.runFor longest).outcome.reason = (t.runFor longest).outcome.reason :=
      congrArg (fun y => y.1.reason) yields
    simp only [run, reasons]
    cases (t.runFor longest).outcome.reason with
    | halted => exact congrArg some yields
    | budgetExhausted => rfl

end TwoSessions

/-- What a run yields: its outcome and the machine it leaves. -/
def Ended.result (e : Ended) : Outcome × Machine :=
  (e.outcome, e.session.machine)

/-- A run depends on the count of its machine in nothing but the count, and on its log in nothing. -/
theorem result_run {s t : Session} {c : UInt64} (same : t.machine = s.machine.addCount c)
    (budget : Option ℕ) :
    (t.run budget).map Ended.result =
      (s.run budget).map fun e => (e.outcome, e.session.machine.addCount c) := by
  have core : s.machine.core = t.machine.core := by rw [same]; rfl
  have latch : s.machine.running = t.machine.running := by rw [same]; rfl
  have yields := yield_run_eq core latch budget
  cases ended : s.run budget with
  | none =>
    rw [ended, Option.map_none] at yields
    rw [Option.map_eq_none_iff.mp yields.symm]
    rfl
  | some e =>
    rw [ended, Option.map_some] at yields
    obtain ⟨f, ended', yield⟩ := Option.map_eq_some_iff.mp yields.symm
    have outcome : f.outcome = e.outcome := congrArg Prod.fst yield
    have machine : f.session.machine = e.session.machine.addCount c := by
      rw [eq_endedAfter_of_run ended', eq_endedAfter_of_run ended, machine_endedAfter,
        machine_endedAfter, same, Machine.iterate_addCount, outcome]
    rw [ended', Option.map_some, Option.map_some, Ended.result, outcome, machine]

/-- **Execution depends on registers and memory only.** Machines that agree on these agree on them
after any number of steps, and have fetched the same opcodes from the same addresses. If they also
agree on whether they run, then every run yields the same from both. -/
theorem core_decides_execution (s t : Session) (same : s.machine.core = t.machine.core) :
    (∀ n, (Machine.step^[n] s.machine).core = (Machine.step^[n] t.machine).core ∧
      s.machine.fetches n = t.machine.fetches n) ∧
    (s.machine.running = t.machine.running →
      ∀ budget, (s.run budget).map Ended.yield = (t.run budget).map Ended.yield) := by
  constructor
  · intro n
    exact ⟨Machine.core_iterate_eq same n, Machine.fetches_eq same n⟩
  · intro latch budget
    exact yield_run_eq same latch budget

/-- The machine in front of a stop, with all the latches changed that do not say whether it runs. -/
def atStopLater : Session where
  machine := { atStop.machine with
    interruptsEnabled := true, instructionCount := 7, lastDiagnostic := some (.illegal 0xD3 0) }

theorem core_decides_execution_atStop :
    atStopLater.machine.core = atStop.machine.core ∧
    atStopLater.machine.running = atStop.machine.running ∧
    (Machine.step^[1] atStopLater.machine).core = (Machine.step^[1] atStop.machine).core ∧
    (atStopLater.run none).map (fun e => e.yield.1) = some ⟨1, .halted⟩ := by
  have same : atStopLater.machine.core = atStop.machine.core := rfl
  have latch : atStopLater.machine.running = atStop.machine.running := rfl
  obtain ⟨steps, runs⟩ := core_decides_execution atStopLater atStop same
  have halted : (atStop.endedAfter 1).yield.1 = ⟨1, .halted⟩ := by
    rw [← (atStop.reason_endedAfter 1).mpr (Machine.halted_at_haltingTime haltingTime_atStop)]
    rfl
  have ended := congrArg (Option.map Prod.fst) (runs latch none)
  rw [run_none_eq haltingTime_atStop (by decide), Option.map_map, Option.map_some, Option.map_some,
    halted] at ended
  exact ⟨same, latch, (steps 1).1, ended⟩

end Session

end Sm83
