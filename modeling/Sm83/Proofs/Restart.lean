import Sm83.Proofs.BootImage

/-! Booting again. A reset gives a machine the registers, the latches and the boot table of a machine
that has just booted, whatever happened to it before; what it keeps is the rest of its memory and its
count. So where the rest of the memory still is what an image put there, the machine runs from then on
as one that has just booted over the image, with a greater count (`reset_restarts`). -/
namespace Sm83

namespace Machine

/-- A reset lays the boot table over the memory as it is. -/
theorem bootedOver_reset (m : Machine) : m.reset.memory.BootedOver m.memory.get :=
  m.memory.bootedOver_boot

/-- Where the memory outside the boot table is that of an image, a reset machine differs from one that
has just booted over the image by its count only. -/
theorem reset_eq_addCount {m : Machine} {image : ByteArray}
    (kept : ∀ a ∉ bootAddresses, m.memory.get a = imageByte image a) :
    m.reset = (ofImage image).addCount m.instructionCount := by
  have memory : m.memory.boot = (Memory.ofImage image).boot :=
    m.bootedOver_reset.unique (bootedOver_ofImage image) kept
  rw [reset, memory, addCount, ofImage, UInt64.zero_add]

end Machine

/-- **A reset restarts the program.** The registers, the latches and the boot table are what they are
after booting, the rest of the memory and the count are kept, and resetting again changes nothing. If
the rest of the memory is what an image puts there, then a run from the reset machine and one from a
machine that has just booted over the image end alike, if they end: with the same outcome, in machines
that differ only in their counts, by what was on the count at the reset. -/
theorem reset_restarts (m : Machine) :
    m.reset.regs = .boot ∧
    m.reset.running = true ∧
    m.reset.interruptsEnabled = false ∧
    m.reset.lastDiagnostic = none ∧
    m.reset.memory.BootedOver m.memory.get ∧
    m.reset.instructionCount = m.instructionCount ∧
    m.reset.reset = m.reset ∧
    ∀ image : ByteArray, (∀ a ∉ bootAddresses, m.memory.get a = imageByte image a) →
      ∀ (budget : Option ℕ) (log log' : Log),
        (Session.run budget { machine := m.reset, log }).map Session.Ended.result =
          (Session.run budget { machine := .ofImage image, log := log' }).map fun e =>
            (e.outcome, e.session.machine.addCount m.instructionCount) := by
  refine ⟨rfl, rfl, rfl, rfl, m.bootedOver_reset, rfl, m.reset_reset, ?_⟩
  intro image kept budget log log'
  let restarted : Session := { machine := m.reset, log }
  let fresh : Session := { machine := .ofImage image, log := log' }
  have later : restarted.machine = fresh.machine.addCount m.instructionCount :=
    Machine.reset_eq_addCount kept
  exact Session.result_run later budget

/-- A machine that has halted on an opcode that is not computed, with its last count and with a byte
of the boot table overwritten. -/
def usedMachine : Machine where
  regs := { Registers.boot with a := 0x55, pc := 0x4000 }
  memory := (Machine.ofImage undefinedThenStop).memory.set 0xFF05 0x99
  running := false
  interruptsEnabled := true
  instructionCount := 0xFFFFFFFFFFFFFFFF
  lastDiagnostic := some (.unimplemented 0x27 0x3FFF)

private theorem get_usedMachine : ∀ a ∉ bootAddresses,
    usedMachine.memory.get a = imageByte undefinedThenStop a := by
  intro a outside
  have different : 0xFF05 ≠ a := by
    rintro rfl
    exact outside (by decide)
  calc usedMachine.memory.get a
      = (Machine.ofImage undefinedThenStop).memory.get a := Memory.get_set_of_ne _ _ different
    _ = imageByte undefinedThenStop a :=
      (Machine.bootedOver_ofImage undefinedThenStop).get_others a outside

/-- Two steps behind its greatest value the count is at one. -/
theorem reset_restarts_atUsedMachine :
    (∀ a ∉ bootAddresses, usedMachine.memory.get a = imageByte undefinedThenStop a) ∧
    ∃ e, Session.run none { machine := usedMachine.reset } = some e ∧
      e.outcome = ⟨2, .halted⟩ ∧
      e.session.machine.instructionCount = 1 := by
  obtain ⟨-, -, -, -, -, -, -, runs⟩ := reset_restarts usedMachine
  let fresh : Session := { machine := .ofImage undefinedThenStop }
  have time : fresh.machine.haltingTime = (2 : ℕ) := Machine.haltingTime_undefinedThenStop
  have results := runs undefinedThenStop get_usedMachine none {} {}
  rw [Session.run_none_eq time (by decide), Option.map_some,
    Session.outcome_endedAfter_of_haltingTime time] at results
  obtain ⟨e, ended, result⟩ := Option.map_eq_some_iff.mp results
  have outcome : e.outcome = ⟨2, .halted⟩ := congrArg Prod.fst result
  have machine : e.session.machine =
      (fresh.endedAfter 2).session.machine.addCount 0xFFFFFFFFFFFFFFFF := congrArg Prod.snd result
  refine ⟨get_usedMachine, e, ended, outcome, ?_⟩
  calc e.session.machine.instructionCount
      = (Machine.step^[2] fresh.machine).instructionCount + 0xFFFFFFFFFFFFFFFF := by
        rw [machine, Session.machine_endedAfter]
        rfl
    _ = 0 + .ofNat 2 + 0xFFFFFFFFFFFFFFFF := by
        rw [Machine.instructionCount_iterate]
        rfl
    _ = 1 := by decide

end Sm83
