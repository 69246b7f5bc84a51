import Sm83.Machine.Execute

/-! An opcode is its three fields, so a law of the opcode tables is checked field by field. The laws
of the step are tables over the opcode bytes themselves, and each is tied to the decoder this way. -/
namespace Sm83

namespace Byte

/-- The byte with the given top two, middle three and bottom three bits. -/
def ofFields (top : Fin 4) (middle bottom : Fin 8) : Byte :=
  .ofNat (top * 64 + middle * 8 + bottom)

theorem ofFields_top_middle_bottom (v : Byte) : ofFields v.top v.middle v.bottom = v := by
  have bound := v.toNat_lt
  apply UInt8.toNat_inj.mp
  simp only [ofFields, top, middle, bottom, UInt8.toNat_ofNat']
  omega

/-- What holds of every combination of fields holds of every byte. -/
theorem forall_of_fields {p : Byte → Prop} (fields : ∀ t r c, p (ofFields t r c)) (v : Byte) : p v :=
  v.ofFields_top_middle_bottom ▸ fields v.top v.middle v.bottom

end Byte

/-- The opcodes without a meaning. -/
def undefinedOpcodes : List Byte :=
  [0xD3, 0xDB, 0xDD, 0xE3, 0xE4, 0xEB, 0xEC, 0xED, 0xF4, 0xFC, 0xFD]

namespace Instruction

/-- Only one byte hands over to the extended table. -/
theorem eq_of_decode_extended (o : Byte) : decode o = .extended → o = 0xCB := by
  apply Byte.forall_of_fields (p := fun o => decode o = .extended → o = 0xCB)
  decide

end Instruction

namespace Machine

/-- The prefix byte is its own extended opcode, and sets bit 1 of register `e`. -/
theorem executeExtended_prefix (m : Machine) :
    m.executeExtended 0xCB = m.setSlot .e (m.regs.e.setBit 1 true) := rfl

end Machine

end Sm83
