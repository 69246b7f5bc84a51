import Sm83.Machine.Text
import Sm83.Report

/-!
The records of what happens, and the log that keeps those at least as severe as its threshold.

Records are kept as data and put into words when they are shown. `records_emit` says what one record
does to a log.
-/

namespace Sm83

/-- How severe a record is. -/
inductive Severity
  | error
  | warn
  | info
  | debug
  | trace
deriving DecidableEq

/-- The place of a severity, the most severe first. -/
def Severity.rank : Severity → Nat
  | .error => 0
  | .warn => 1
  | .info => 2
  | .debug => 3
  | .trace => 4

/-- The name a severity is shown under. -/
def Severity.label : Severity → String
  | .error => "ERROR"
  | .warn => "WARN"
  | .info => "INFO"
  | .debug => "DEBUG"
  | .trace => "TRACE"

/-- Something worth telling. -/
inductive Record
  /-- A run was set up over an image of this many bytes. -/
  | started (imageSize : Nat)
  /-- An instruction is about to execute: the number taken before it, its opcode and the registers. -/
  | traced (count : UInt64) (opcode : Byte) (regs : Registers)
  /-- The machine was told to halt. -/
  | stopped (pc : Word)
  /-- An opcode could not be carried out. -/
  | diagnosed (diagnostic : Diagnostic)
  /-- A run ended. -/
  | finished (outcome : Outcome) (pc : Word)
  /-- The report on a run. -/
  | reported (report : Report)
  /-- The diagnostic left over at the end of a run. -/
  | leftOver (diagnostic : Diagnostic)
  /-- An image of this many bytes does not fit into memory. -/
  | oversized (imageSize : Nat)
  /-- The image at this path is about to be run. -/
  | chosen (path : String)

namespace Record

/-- How severe a record is: an opcode without a meaning is a warning, one that halts the machine
because it is not computed is an error. -/
def severity : Record → Severity
  | .started _ | .finished _ _ | .reported _ | .leftOver _ | .chosen _ => .info
  | .traced _ _ _ => .trace
  | .stopped _ => .debug
  | .diagnosed (.illegal _ _) | .oversized _ => .warn
  | .diagnosed (.unimplemented _ _) => .error

/-- The record in words. -/
def message : Record → String
  | .started n => "Game Boy interpreter init: " ++ toString n ++ " byte image"
  | .traced count opcode regs =>
    toString count.toNat ++ ") PC=" ++ regs.pc.hex ++ " SP=" ++ regs.sp.hex ++
      " I=" ++ opcode.hex ++ " AF=" ++ regs.af.hex ++ " BC=" ++ regs.bc.hex ++
      " DE=" ++ regs.de.hex ++ " HL=" ++ regs.hl.hex
  | .stopped pc => "STOP at PC=0x" ++ pc.hex ++ "; halting"
  | .diagnosed (.illegal opcode pc) => "illegal opcode " ++ opcode.hex ++ " at PC=0x" ++ pc.hex
  | .diagnosed (.unimplemented opcode pc) =>
    "unimplemented opcode " ++ opcode.hex ++ " (DAA) at PC=0x" ++ pc.hex ++ "; halting"
  | .finished outcome pc =>
    match outcome.reason with
    | .halted => "halted after " ++ toString outcome.steps ++ " steps at PC=0x" ++ pc.hex
    | .budgetExhausted =>
      "step budget of " ++ toString outcome.steps ++ " exhausted at PC=0x" ++ pc.hex
  | .reported report => report.text
  | .leftOver diagnostic => "last diagnostic: " ++ diagnostic.describe
  | .oversized n =>
    "image is " ++ toString n ++ " bytes; only the first " ++ toString Memory.size ++ " are mapped"
  | .chosen path => "Running image path: '" ++ path ++ "'"

end Record

/-- The records kept so far, and the least severe kind that is kept at all. -/
structure Log where
  /-- Nothing is kept without a threshold. -/
  threshold : Option Severity := none
  records : Array Record := #[]

namespace Log

/-- Whether records of a severity are kept. -/
def keeps (log : Log) (s : Severity) : Bool :=
  match log.threshold with
  | none => false
  | some t => s.rank ≤ t.rank

/-- Keeps a record if it is severe enough. -/
@[inline] def emit (log : Log) (r : Record) : Log :=
  if log.keeps r.severity then { log with records := log.records.push r } else log

/-- A log keeps to its threshold. -/
@[simp] theorem threshold_emit (log : Log) (r : Record) : (log.emit r).threshold = log.threshold := by
  unfold emit
  split <;> rfl

/-- A record goes behind the ones before it, or nowhere. -/
theorem records_emit (log : Log) (r : Record) :
    (log.emit r).records.toList =
      log.records.toList ++ (if log.keeps r.severity then [r] else []) := by
  unfold emit
  split <;> simp

end Log

end Sm83
