import Sm83.Session

/-!
A run from an image to a report.
-/

namespace Sm83

/-- The step budget where none is asked for. -/
def defaultMaxSteps : Nat := 10000000

/-- How to run. -/
structure Config where
  /-- The step budget; without one the run lasts until the machine halts. -/
  maxSteps : Option Nat := some defaultMaxSteps
  /-- Whether to log the report. -/
  dumpState : Bool := false

namespace Session

/-- The report on a run that has ended. -/
def Ended.report (e : Ended) : Report where
  outcome := e.outcome
  registers := e.session.machine.regs
  interruptsEnabled := e.session.machine.interruptsEnabled

/-- The log of a run that has ended, with the report behind it if it is asked for, and then the
diagnostic that is left over, if there is one. -/
def Ended.close (e : Ended) (dumpState : Bool) : Log :=
  let log := if dumpState then e.session.log.emit (.reported e.report) else e.session.log
  match e.session.machine.lastDiagnostic with
  | some d => log.emit (.leftOver d)
  | none => log

end Session

/-- Boots a machine over an image, runs it and reports on it. A run that never ends has no report. -/
def Config.run (config : Config) (image : ByteArray) (log : Log) : Option (Report × Log) :=
  let fresh : Session := { machine := .ofImage image, log := log.emit (.started image.size) }
  (fresh.run config.maxSteps).map fun ended => (ended.report, ended.close config.dumpState)

end Sm83
