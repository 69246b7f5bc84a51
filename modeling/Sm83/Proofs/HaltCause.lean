import Sm83.Proofs.BoundedRun

/-! What a halted machine tells about its end. The step that halts writes no memory and goes on by one
byte, so the opcode that halted a run still stands in front of the program counter, even where the
program has overwritten itself before. The diagnostic agrees with it: it names an opcode that is not
computed exactly if that one halted the run, and in every machine that steps, runs and resets can lead
to, such a diagnostic is left on a halted machine only (`halt_leaves_cause`). -/
namespace Sm83

/-! ## Diagnostics -/

namespace Machine

/-- The diagnostic of a machine is true: an opcode it calls unimplemented has halted the machine, and
one it calls illegal has no meaning. -/
structure Diagnosed (m : Machine) : Prop where
  halted : ∀ o a, m.lastDiagnostic = some (.unimplemented o a) → m.running = false
  undefined : ∀ o a, m.lastDiagnostic = some (.illegal o a) → o ∈ undefinedOpcodes

variable {m : Machine}

private theorem diagnosed_of_none (silent : m.lastDiagnostic = none) : m.Diagnosed where
  halted o a left := by
    rw [silent] at left
    cases left
  undefined o a left := by
    rw [silent] at left
    cases left

/-- A step that reports an opcode leaves a true diagnostic, and any other step leaves the diagnostic
as it was and starts no halted machine again. -/
theorem Diagnosed.step (diagnosed : m.Diagnosed) : m.step.Diagnosed := by
  by_cases reported : m.opcode ∈ reportedOpcodes
  · have left : m.step.lastDiagnostic = some m.fetch.diagnostic := by
      rw [lastDiagnostic_step, if_pos reported]
    by_cases adjusts : m.opcode = 0x27
    · have unimplemented : m.fetch.diagnostic = .unimplemented m.opcode m.regs.pc :=
        if_pos adjusts
      have stops : m.step.running = false := by
        rw [running_step, adjusts]
        rfl
      refine ⟨fun _ _ _ => stops, ?_⟩
      intro o a illegal
      rw [left, unimplemented] at illegal
      cases illegal
    · have illegal : m.fetch.diagnostic = .illegal m.opcode m.regs.pc := if_neg adjusts
      have undefined : m.opcode ∈ undefinedOpcodes :=
        (List.mem_cons.mp reported).resolve_left adjusts
      constructor
      · intro o a unimplemented
        rw [left, illegal] at unimplemented
        cases unimplemented
      · intro o a same
        rw [left, illegal] at same
        cases same
        exact undefined
  · have kept : m.step.lastDiagnostic = m.lastDiagnostic := by
      rw [lastDiagnostic_step, if_neg reported]
    constructor
    · intro o a unimplemented
      rw [running_step, diagnosed.halted o a (kept ▸ unimplemented), Bool.and_false]
    · intro o a illegal
      exact diagnosed.undefined o a (kept ▸ illegal)

theorem Diagnosed.iterate (diagnosed : m.Diagnosed) (n : ℕ) : (Machine.step^[n] m).Diagnosed := by
  induction n with
  | zero => exact diagnosed
  | succ n ih =>
    rw [Function.iterate_succ_apply']
    exact ih.step

/-! ## Reachable machines -/

/-- The machines that steps, runs and resets lead to from a machine that has booted over an image. -/
inductive Reachable : Machine → Prop
  | boot (image : ByteArray) : Reachable (ofImage image)
  | step {m : Machine} (before : Reachable m) : Reachable m.step
  | run {s : Session} {budget : Option ℕ} {e : Session.Ended} (before : Reachable s.machine)
      (ended : s.run budget = some e) : Reachable e.session.machine
  | reset {m : Machine} (before : Reachable m) : Reachable m.reset

theorem Reachable.diagnosed (reachable : m.Reachable) : m.Diagnosed := by
  induction reachable with
  | boot image => exact diagnosed_of_none rfl
  | step _ ih => exact ih.step
  | run _ ended ih =>
    rw [Session.machine_of_run ended]
    exact ih.iterate _
  | reset _ _ => exact diagnosed_of_none rfl

/-! ## The step that halts -/

/-- A step that halts leaves memory alone and goes on by one byte. -/
private theorem step_of_halting (halting : m.opcode ∈ haltingOpcodes) :
    m.step.memory = m.memory ∧ m.step.regs.pc = m.regs.pc + 1 := by
  obtain fetched | fetched : m.opcode = 0x10 ∨ m.opcode = 0x27 := by
    simpa [haltingOpcodes] using halting
  · have decoded : Instruction.decode m.opcode = .stop := by rw [fetched]; rfl
    rw [step_eq, decoded]
    exact ⟨rfl, rfl⟩
  · have decoded : Instruction.decode m.opcode = .decimalAdjust := by rw [fetched]; rfl
    rw [step_eq, decoded]
    exact ⟨rfl, rfl⟩

/-- The opcode that halted a machine stands in front of its program counter. -/
theorem get_before_pc_of_halting (halting : m.opcode ∈ haltingOpcodes) :
    m.step.regs.pc - 1 = m.regs.pc ∧ m.step.memory.get (m.step.regs.pc - 1) = m.opcode := by
  obtain ⟨memory, pc⟩ := step_of_halting halting
  have back : m.step.regs.pc - 1 = m.regs.pc := by rw [pc, UInt16.add_sub_cancel]
  refine ⟨back, ?_⟩
  rw [back, memory]
  rfl

/-- The diagnostic behind a halt names an opcode that is not computed exactly if that opcode is the
cause. Behind a stop it is what it was before, and a running machine remembers no such opcode. -/
theorem lastDiagnostic_step_of_halting (diagnosed : m.Diagnosed) (running : m.running = true)
    (halting : m.opcode ∈ haltingOpcodes) :
    (m.step.lastDiagnostic = some (.unimplemented 0x27 m.regs.pc) ↔ m.opcode = 0x27) ∧
    (m.opcode = 0x10 → m.step.lastDiagnostic = none ∨
      ∃ o a, m.step.lastDiagnostic = some (.illegal o a) ∧ o ∈ undefinedOpcodes) := by
  have blameless : ∀ o a, m.lastDiagnostic ≠ some (.unimplemented o a) := by
    intro o a unimplemented
    exact absurd (running.symm.trans (diagnosed.halted o a unimplemented)) (by decide)
  obtain stop | adjust : m.opcode = 0x10 ∨ m.opcode = 0x27 := by
    simpa [haltingOpcodes] using halting
  · have kept : m.step.lastDiagnostic = m.lastDiagnostic := by
      have unreported : m.opcode ∉ reportedOpcodes := by rw [stop]; decide
      rw [lastDiagnostic_step, if_neg unreported]
    rw [kept]
    constructor
    · constructor
      · intro unimplemented
        exact absurd unimplemented (blameless _ _)
      · intro adjust
        rw [stop] at adjust
        exact absurd adjust (by decide)
    · intro _
      cases left : m.lastDiagnostic with
      | none => exact .inl rfl
      | some d =>
        cases d with
        | illegal o a => exact .inr ⟨o, a, rfl, diagnosed.undefined o a left⟩
        | unimplemented o a => exact absurd left (blameless o a)
  · have left : m.step.lastDiagnostic = some (.unimplemented 0x27 m.regs.pc) := by
      have reported : m.opcode ∈ reportedOpcodes := by rw [adjust]; decide
      have unimplemented : m.fetch.diagnostic = .unimplemented m.opcode m.regs.pc := if_pos adjust
      rw [lastDiagnostic_step, if_pos reported, unimplemented, adjust]
    constructor
    · exact iff_of_true left adjust
    · intro stop
      rw [adjust] at stop
      exact absurd stop (by decide)

end Machine

/-! ## Runs -/

namespace Session

variable {s : Session} {budget : Option ℕ} {e : Ended}

/-- A run that finds its machine running and leaves it halted ends with the step that halts it. -/
theorem exists_halting_step (running : s.machine.running = true) (ended : s.run budget = some e)
    (halted : e.outcome.reason = .halted) :
    ∃ k, e.outcome.steps = k + 1 ∧ (Machine.step^[k] s.machine).running = true ∧
      (Machine.step^[k] s.machine).opcode ∈ haltingOpcodes ∧
      e.session.machine = (Machine.step^[k] s.machine).step := by
  obtain ⟨n, least, after⟩ := s.runFor_eq_endedAfter (budget.getD longest)
  have steps : e.outcome.steps = n := by rw [eq_runFor_of_run ended, after, steps_endedAfter]
  have stopped : (Machine.step^[n] s.machine).running = false := by
    rw [← steps, ← machine_of_run ended]
    exact (reason_of_run ended).mp halted
  cases n with
  | zero => exact absurd (running.symm.trans stopped) (by decide)
  | succ k =>
    have within : ((k + 1 : ℕ) : ℕ∞) ≤ s.machine.haltingTime := least ▸ min_le_left _ _
    have before : (k : ℕ∞) < s.machine.haltingTime :=
      lt_of_lt_of_le (Nat.cast_lt.mpr k.lt_succ_self) within
    have runs := Machine.running_of_lt_haltingTime before
    rw [Function.iterate_succ_apply', Machine.running_step, runs] at stopped
    refine ⟨k, steps, runs, by simpa using stopped, ?_⟩
    rw [machine_of_run ended, steps, Function.iterate_succ_apply']

end Session

/-- **A halt leaves its cause behind.** A run over an image that ends on a halted machine has taken a
step, and one of the two halting opcodes stands in front of the program counter. The diagnostic names
the opcode that is not computed, at that place, exactly if it is the one; on a stop there is none, or
it names an opcode without a meaning. A run that ends on a running machine has met no opcode that is
not computed. No machine that steps, runs and resets lead to runs with a diagnostic of one. -/
theorem halt_leaves_cause :
    (∀ (image : ByteArray) (log : Log) (budget : Option ℕ) (e : Session.Ended),
      Session.run budget { machine := .ofImage image, log } = some e →
      let m := e.session.machine
      let cause := m.memory.get (m.regs.pc - 1)
      (e.outcome.reason = .halted →
        1 ≤ e.outcome.steps ∧
        (cause = 0x10 ∨ cause = 0x27) ∧
        (m.lastDiagnostic = some (.unimplemented 0x27 (m.regs.pc - 1)) ↔ cause = 0x27) ∧
        (cause = 0x10 → m.lastDiagnostic = none ∨
          ∃ o a, m.lastDiagnostic = some (.illegal o a) ∧ o ∈ undefinedOpcodes)) ∧
      (e.outcome.reason = .budgetExhausted →
        ∀ o a, m.lastDiagnostic ≠ some (.unimplemented o a))) ∧
    ∀ m : Machine, m.Reachable →
      ∀ o a, m.lastDiagnostic = some (.unimplemented o a) → m.running = false := by
  refine ⟨?_, fun m reachable => reachable.diagnosed.halted⟩
  intro image log budget e ended
  have booted : (Machine.ofImage image).Diagnosed := (Machine.Reachable.boot image).diagnosed
  constructor
  · intro halted
    obtain ⟨k, steps, running, halting, left⟩ := Session.exists_halting_step rfl ended halted
    have before := booted.iterate k
    obtain ⟨place, cause⟩ := Machine.get_before_pc_of_halting halting
    obtain ⟨blamed, spared⟩ := Machine.lastDiagnostic_step_of_halting before running halting
    rw [left, cause, place, steps]
    refine ⟨Nat.le_add_left 1 k, ?_, blamed, spared⟩
    simpa [haltingOpcodes] using halting
  · intro exhausted o a unimplemented
    have diagnosed : e.session.machine.Diagnosed := by
      rw [Session.machine_of_run ended]
      exact booted.iterate _
    have halted := (Session.reason_of_run ended).mpr (diagnosed.halted o a unimplemented)
    rw [exhausted] at halted
    cases halted

/-- A run over an opcode without a meaning and one that is not computed, with and without a budget
that ends it in between. -/
theorem halt_leaves_cause_atAdjust :
    let fresh : Session := { machine := .ofImage (undefinedThen 0x27) }
    (∃ e, fresh.run none = some e ∧ e.outcome.reason = .halted ∧ e.session.machine.Reachable ∧
      e.session.machine.lastDiagnostic =
        some (.unimplemented 0x27 (e.session.machine.regs.pc - 1)) ∧
      e.session.machine.running = false) ∧
    ∃ e, fresh.run (some 1) = some e ∧ e.outcome.reason = .budgetExhausted ∧
      ∀ o a, e.session.machine.lastDiagnostic ≠ some (.unimplemented o a) := by
  intro fresh
  obtain ⟨runs, reached⟩ := halt_leaves_cause
  have second : fresh.machine.step.opcode = 0x27 := Machine.opcode_step_undefinedThen 0x27
  have halting : fresh.machine.step.opcode ∈ haltingOpcodes := by
    rw [second]
    decide
  have running : fresh.machine.step.running = true := by
    rw [Machine.step_undefinedThen]
    rfl
  constructor
  · have time : fresh.machine.haltingTime = (2 : ℕ) := by
      have passes : fresh.machine.opcode ∉ haltingOpcodes := by
        rw [Machine.opcode_undefinedThen]
        decide
      exact Machine.haltingTime_eq_two rfl passes halting
    have ended := Session.run_none_eq time (by decide)
    have halted : (fresh.endedAfter 2).outcome.reason = .halted := by
      rw [Session.outcome_endedAfter_of_haltingTime time]
    obtain ⟨-, -, blamed, -⟩ := (runs _ _ _ _ ended).1 halted
    have cause : (fresh.endedAfter 2).session.machine.memory.get
        ((fresh.endedAfter 2).session.machine.regs.pc - 1) = 0x27 :=
      (Machine.get_before_pc_of_halting halting).2.trans second
    have left := blamed.mpr cause
    have reachable := Machine.Reachable.run (.boot (undefinedThen 0x27)) ended
    exact ⟨_, ended, halted, reachable, left, reached _ reachable _ _ left⟩
  · have ended : fresh.run (some 1) = some (fresh.endedAfter 1) :=
      congrArg some (Session.runFor_of_running running)
    have exhausted : (fresh.endedAfter 1).outcome.reason = .budgetExhausted := by
      rw [Session.outcome_endedAfter_of_running (n := 1) running]
    exact ⟨_, ended, exhausted, (runs _ _ _ _ ended).2 exhausted⟩

end Sm83
