import Sm83.Proofs.MultiByteSums

/-! What the operations on the accumulator compute, and what their flags tell about it. Every operation
comes to a whole number, and the byte it computes is that number modulo 256 (`toNat_computed`). The
carry says that the number is no byte, and the zero flag that it is zero, which is more than that the
byte is zero. So one law covers the zero flag of all eight operations (`alu_exact`). -/
namespace Sm83
namespace Alu.Op

/-! ## Tables -/

/-- The byte that an operation computes from the accumulator, its operand and the carry. Sums and
differences are modulo 256. -/
def computed (op : Op) (a v : Byte) (carryIn : Bool) : Byte :=
  match op with
  | .add => a + v
  | .adc => a + v + carryIn.toUInt8
  | .sub | .cp => a - v
  | .sbc => a - v - carryIn.toUInt8
  | .and => a &&& v
  | .xor => a ^^^ v
  | .or => a ||| v

/-- When an operation carries: its sum does not fit into a byte, or its difference is negative. Bitwise
logic never carries. -/
def Carries (op : Op) (a v : Byte) (carryIn : Bool) : Prop :=
  match op with
  | .add => 256 ≤ a.toNat + v.toNat
  | .adc => 256 ≤ a.toNat + v.toNat + carryIn.toNat
  | .sub | .cp => a.toNat < v.toNat
  | .sbc => a.toNat < v.toNat + carryIn.toNat
  | .and | .xor | .or => False

/-- When an operation computes a zero byte that is not all it comes to. Sums can be 256, and a
difference can be -256, but only if it takes in a carry. -/
def MissesZero (op : Op) (a v : Byte) (carryIn : Bool) : Prop :=
  match op with
  | .add => a.toNat + v.toNat = 256
  | .adc => a.toNat + v.toNat + carryIn.toNat = 256
  | .sbc => (a.toNat - v.toNat - carryIn.toNat : ℤ) = -256
  | .sub | .cp | .and | .xor | .or => False

/-- The operations that subtract. -/
def subtractions : List Op := [.sub, .sbc, .cp]

/-- What an operation leaves in the accumulator and the flags, given the accumulator, the operand and
the carry before. -/
structure Leaves (op : Op) (a v : Byte) (carryIn : Bool) (r : Result Byte) : Prop where
  /-- A comparison computes a difference and keeps the accumulator. -/
  value : r.value = if op = .cp then a else op.computed a v carryIn
  carry : r.flags.carry = true ↔ op.Carries a v carryIn
  negate : r.flags.negate = true ↔ op ∈ subtractions
  /-- A byte of zero counts if nothing was carried. -/
  zero : r.flags.zero = true ↔ op.computed a v carryIn = 0 ∧ r.flags.carry = false
  /-- The bytes of zero that do not count. -/
  missed : op.computed a v carryIn = 0 ∧ r.flags.zero = false ↔ op.MissesZero a v carryIn

/-! ## The whole number -/

/-- The whole number that an operation comes to. -/
def whole (op : Op) (a v : Byte) (carryIn : Bool) : ℤ :=
  match op with
  | .add => a.toNat + v.toNat
  | .adc => a.toNat + v.toNat + carryIn.toNat
  | .sub | .cp => a.toNat - v.toNat
  | .sbc => a.toNat - v.toNat - carryIn.toNat
  | .and | .xor | .or => (op.computed a v carryIn).toNat

section Whole

variable (op : Op) (a v : Byte) (carryIn : Bool)

theorem toNat_toUInt8 : carryIn.toUInt8.toNat = carryIn.toNat := by
  cases carryIn <;> rfl

/-- The byte is the whole number modulo 256. -/
private theorem toNat_computed :
    ((op.computed a v carryIn).toNat : ℤ) = op.whole a v carryIn % 256 := by
  have byte := (op.computed a v carryIn).toNat_lt
  have accumulator := a.toNat_lt
  have operand := v.toNat_lt
  have atStart := Bool.toNat_le carryIn
  unfold whole
  cases op with
  | and | xor | or =>
    simp only
    omega
  | _ =>
    simp only [computed, UInt8.toNat_add, UInt8.toNat_sub, toNat_toUInt8]
    omega

private theorem computed_eq_zero_iff :
    op.computed a v carryIn = 0 ↔ op.whole a v carryIn % 256 = 0 := by
  rw [← toNat_computed, Int.natCast_eq_zero]
  exact UInt8.toNat_inj.symm

/-- An operation carries if the whole number is no byte. -/
private theorem carries_iff :
    op.Carries a v carryIn ↔ op.whole a v carryIn < 0 ∨ 256 ≤ op.whole a v carryIn := by
  have byte := (op.computed a v carryIn).toNat_lt
  have accumulator := a.toNat_lt
  have operand := v.toNat_lt
  unfold Carries whole
  cases op with
  | and | xor | or =>
    simp only [false_iff]
    omega
  | _ =>
    simp only
    omega

/-- An operation misses a zero if the whole number is another multiple of 256. -/
private theorem missesZero_iff :
    op.MissesZero a v carryIn ↔ op.whole a v carryIn % 256 = 0 ∧ op.whole a v carryIn ≠ 0 := by
  have byte := (op.computed a v carryIn).toNat_lt
  have accumulator := a.toNat_lt
  have operand := v.toNat_lt
  have atStart := Bool.toNat_le carryIn
  unfold MissesZero whole
  cases op with
  | add | adc | sbc =>
    simp only
    omega
  | _ =>
    simp only [false_iff]
    omega

end Whole

/-! ## The flags -/

section Flags

variable (op : Op) (a v : Byte) (f : Flags)

/-- Apart from a comparison an operation leaves its whole number modulo 256. -/
private theorem toNat_value_apply (kept : op ≠ .cp) :
    ((op.apply a v f).value.toNat : ℤ) = op.whole a v f.carry % 256 := by
  have byte := (op.apply a v f).value.toNat_lt
  have sum := toNat_add a v false
  have sumWithCarry := toNat_add a v f.carry
  have difference := toNat_sub a v false
  have differenceWithCarry := toNat_sub a v f.carry
  rw [Bool.toNat_false] at sum difference
  cases op with
  | cp => exact absurd rfl kept
  | and | xor | or => exact (Int.emod_eq_of_lt (Int.natCast_nonneg _) (by exact_mod_cast byte)).symm
  | _ =>
    simp only [apply, whole] at byte ⊢
    omega

private theorem value_apply :
    (op.apply a v f).value = if op = .cp then a else op.computed a v f.carry := by
  by_cases comparison : op = .cp
  · subst comparison
    rfl
  · have same := (toNat_value_apply op a v f comparison).trans (toNat_computed op a v f.carry).symm
    rw [if_neg comparison]
    exact UInt8.toNat_inj.mp (Int.natCast_inj.mp same)

/-- The zero flag looks at the whole number. -/
theorem zero_apply : (op.apply a v f).flags.zero = true ↔ op.whole a v f.carry = 0 := by
  unfold apply whole
  cases op with
  | and | xor | or =>
    simp only [Alu.and, Alu.xor, Alu.or, logic, computed, beq_iff_eq, Int.natCast_eq_zero]
    exact UInt8.toNat_inj.symm
  | sbc => simp only [Alu.sub, beq_iff_eq]
  | _ =>
    simp only [Alu.add, Alu.sub, beq_iff_eq, Bool.toNat_false]
    omega

private theorem carry_apply : (op.apply a v f).flags.carry = true ↔ op.Carries a v f.carry := by
  unfold apply Carries
  cases op with
  | and | xor | or => exact iff_of_false Bool.false_ne_true id
  | adc => simp only [Alu.add, decide_eq_true_eq]
  | _ =>
    simp only [Alu.add, Alu.sub, decide_eq_true_eq, Bool.toNat_false]
    omega

private theorem negate_apply : (op.apply a v f).flags.negate = true ↔ op ∈ subtractions := by
  cases op <;> simp [apply, Alu.add, Alu.sub, Alu.and, Alu.xor, Alu.or, logic, subtractions]

private theorem leaves_apply : op.Leaves a v f.carry (op.apply a v f) where
  value := value_apply op a v f
  carry := carry_apply op a v f
  negate := negate_apply op a v f
  zero := by
    rw [zero_apply, computed_eq_zero_iff, ← Bool.not_eq_true, carry_apply, carries_iff]
    omega
  missed := by
    rw [missesZero_iff, computed_eq_zero_iff, ← Bool.not_eq_true, zero_apply]

end Flags

end Alu.Op

namespace Machine

/-- **The operations on the accumulator are exact, and one law covers their zero flags.** Whichever slot
or immediate byte the operand comes from, the accumulator holds the computed byte afterwards, except
that a comparison keeps it, and nothing else changes but the flags; an immediate byte is skipped. The
zero flag is set if the byte is zero and nothing was carried, so it misses the sums of 256 and the
difference of -256. -/
theorem alu_exact (m : Machine) (op : Alu.Op) (s : Source) :
    let n := m.execute (.alu op s)
    op.Leaves m.regs.a (m.source s) m.regs.flags.carry ⟨n.regs.a, n.regs.flags⟩ ∧
    n = { m with
      regs.a := n.regs.a, regs.flags := n.regs.flags
      regs.pc := m.regs.pc + if s = .immediate then 1 else 0 } := by
  intro n
  cases s with
  | slot r =>
    refine ⟨Alu.Op.leaves_apply op m.regs.a (m.slot r) m.regs.flags, ?_⟩
    have still : m.regs.pc + 0 = m.regs.pc := UInt16.add_zero _
    simp only [reduceCtorEq, if_false, still]
    rfl
  | immediate => exact ⟨Alu.Op.leaves_apply op m.regs.a m.operandByte m.regs.flags, rfl⟩

end Machine

end Sm83
