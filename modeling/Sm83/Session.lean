import Sm83.Log
import Sm83.Machine.Boot
import Sm83.Machine.Execute

/-!
A machine at work, with the log of what it does. The log never acts back on the machine: a step of a
session is a step of its machine (`machine_step`).

A run takes steps until the machine halts or its budget is spent. The machine is looked at before the
budget, so one that halts on its last budgeted step has halted, and one that was halted from the
start takes no step (`advance_of_halted`).
-/

namespace Sm83

/-- What an instruction has to tell when it executes at an address, if anything. -/
def Instruction.notice? (i : Instruction) (pc : Word) : Option Record :=
  match i with
  | .stop => some (.stopped pc)
  | .decimalAdjust => some (.diagnosed (.unimplemented 0x27 pc))
  | .undefined opcode => some (.diagnosed (.illegal opcode pc))
  | _ => none

/-- A machine and the log of its work. -/
structure Session where
  machine : Machine
  log : Log := {}

namespace Session

/-! ## Steps -/

/-- Carries out an instruction and logs what it has to tell. -/
def execute (s : Session) (i : Instruction) : Session :=
  let log :=
    match i.notice? s.machine.regs.pc with
    | some r => s.log.emit r
    | none => s.log
  { machine := s.machine.execute i, log }

/-- Normalizes the flags, logs the next instruction and takes it. -/
def step (s : Session) : Session :=
  let m := s.machine.normalize
  let log := s.log.emit (.traced m.instructionCount m.opcode m.regs)
  let t := execute { machine := m.tick, log } (.decode m.opcode)
  { t with machine := t.machine.skip 1 }

/-- The log does not act back on the machine. -/
theorem machine_step (s : Session) : s.step.machine = s.machine.step := rfl

/-! ## Runs -/

/-- Takes steps while the machine runs and the budget lasts, and gives back what is left of it. -/
def advance : Nat → Session → Session × Nat
  | 0, s => (s, 0)
  | budget + 1, s => if s.machine.running then advance budget s.step else (s, budget + 1)

theorem advance_of_halted (budget : Nat) (s : Session) (halted : s.machine.running = false) :
    advance budget s = (s, budget) := by
  cases budget with
  | zero => rfl
  | succ budget => simp [advance, halted]

theorem advance_of_running (budget : Nat) (s : Session) (running : s.machine.running = true) :
    advance (budget + 1) s = advance budget s.step := by
  simp [advance, running]

/-- A run that has ended: the session as it was left, and how it came to its end. -/
structure Ended where
  session : Session
  outcome : Outcome

/-- Runs on a budget and logs how the run ended. -/
def runFor (budget : Nat) (s : Session) : Ended :=
  let (t, left) := s.advance budget
  let reason : StopReason := if t.machine.running then .budgetExhausted else .halted
  let outcome : Outcome := { steps := budget - left, reason }
  { session := { t with log := t.log.emit (.finished outcome t.machine.regs.pc) }, outcome }

/-- The greatest number of steps that is counted: what fits in 64 bits. -/
def longest : Nat := UInt64.size - 1

/-- Runs on a budget, or without one until the machine halts. A run that never halts has no end to
give back. -/
def run (budget : Option Nat) (s : Session) : Option Ended :=
  match budget with
  | some steps => some (s.runFor steps)
  | none =>
    let ended := s.runFor longest
    match ended.outcome.reason with
    | .halted => some ended
    | .budgetExhausted => none

end Session

end Sm83
