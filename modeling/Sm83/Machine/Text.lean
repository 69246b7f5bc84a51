import Sm83.Machine.Basic
import Sm83.Text.Braced

/-!
A machine written out by name, except for its memory, of which only the size is told.
-/

namespace Sm83

/-- The diagnostic with its opcode and address in decimal. -/
def Diagnostic.describe : Diagnostic → String
  | .illegal opcode pc => text "Illegal" opcode pc
  | .unimplemented opcode pc => text "Unimplemented" opcode pc
where
  text (name : String) (opcode : Byte) (pc : Word) : String :=
    Text.braced name [("opcode", toString opcode.toNat), ("pc", toString pc.toNat)]

/-- The flags by name. -/
def Flags.describe (f : Flags) : String :=
  Text.braced "Flags"
    [("zero", toString f.zero), ("carry", toString f.carry),
     ("half_carry", toString f.halfCarry), ("negate", toString f.negate)]

/-- The registers by name, in decimal. -/
def Registers.describe (r : Registers) : String :=
  Text.braced "Registers"
    [("a", toString r.a.toNat), ("b", toString r.b.toNat), ("c", toString r.c.toNat),
     ("d", toString r.d.toNat), ("e", toString r.e.toNat), ("h", toString r.h.toNat),
     ("l", toString r.l.toNat), ("flags", r.flags.describe),
     ("sp", toString r.sp.toNat), ("pc", toString r.pc.toNat)]

/-- The machine by name, in decimal. -/
def Machine.describe (m : Machine) : String :=
  Text.braced "Cpu"
    [("regs", m.regs.describe),
     ("memory", Text.braced "Memory" [("size", toString Memory.size)]),
     ("running", toString m.running),
     ("interrupts_enabled", toString m.interruptsEnabled),
     ("instruction_count", toString m.instructionCount.toNat),
     ("last_diagnostic", Text.optional (m.lastDiagnostic.map Diagnostic.describe))]

end Sm83
