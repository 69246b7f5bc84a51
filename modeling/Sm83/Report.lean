import Sm83.Registers
import Sm83.Text.Hex

/-!
How a run ends, and the line that reports it.
-/

namespace Sm83

/-- Why a run ended. -/
inductive StopReason
  | halted
  /-- The step budget was spent while the machine was still running. -/
  | budgetExhausted
deriving DecidableEq

/-- The end of a run. -/
structure Outcome where
  steps : Nat
  reason : StopReason
deriving DecidableEq

/-- What is told about a run once it has ended. -/
structure Report where
  outcome : Outcome
  registers : Registers
  interruptsEnabled : Bool
deriving DecidableEq

/-- The reason as the report words it. -/
def StopReason.text : StopReason → String
  | .halted => "halted"
  | .budgetExhausted => "step budget exhausted"

/-- The report on one line. -/
def Report.text (r : Report) : String :=
  r.outcome.reason.text ++ " after " ++ toString r.outcome.steps ++ " steps: PC=0x" ++
    r.registers.pc.hex ++ " SP=0x" ++ r.registers.sp.hex ++ " AF=0x" ++ r.registers.af.hex ++
    " BC=0x" ++ r.registers.bc.hex ++ " DE=0x" ++ r.registers.de.hex ++
    " HL=0x" ++ r.registers.hl.hex ++ " IME=" ++ toString r.interruptsEnabled

end Sm83
