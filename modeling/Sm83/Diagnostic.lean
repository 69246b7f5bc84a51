import Sm83.Word

/-!
What the machine reports about an opcode it could not carry out.
-/

namespace Sm83

/-- A report of an opcode and the address it was fetched from. -/
inductive Diagnostic
  /-- An opcode without a meaning; the machine went on behind it. -/
  | illegal (opcode : Byte) (pc : Word)
  /-- An opcode that is recognised but not computed; the machine halted. -/
  | unimplemented (opcode : Byte) (pc : Word)
deriving DecidableEq

end Sm83
