import Sm83.Proofs.MultiByteSums

/-! The addition of a pair to `hl`, byte by byte. A sum of words is made of a sum of their low bytes
and one of their high bytes that takes in its carry. What is left over of the low bytes is all that the
high bytes need to know (`high_sum`), so the flags of the whole are read off the second sum, the half
carry included, and the instruction does in one go what the two operations of the accumulator do one
after the other (`addHl_exact`). -/
namespace Sm83

namespace Alu

section Bytes

variable (h l : Byte) (w : Word) (f : Flags)

/-- The sum of the low bytes. -/
def lowSum : Result Byte :=
  Op.add.apply l w.low f

/-- The sum of the high bytes and of the carry that the low ones leave. -/
def highSum : Result Byte :=
  Op.adc.apply h w.high (lowSum l w f).flags

private theorem toNat_lowSum :
    (lowSum l w f).value.toNat + 256 * (lowSum l w f).flags.carry.toNat =
      l.toNat + w.toNat % 256 := by
  rw [← Word.toNat_low]
  exact toNat_add l w.low false

private theorem toNat_highSum :
    (highSum h l w f).value.toNat + 256 * (highSum h l w f).flags.carry.toNat =
      h.toNat + w.toNat / 256 + (lowSum l w f).flags.carry.toNat := by
  rw [← Word.toNat_high]
  exact toNat_add h w.high (lowSum l w f).flags.carry

/-- The high bytes and the carry come to the sum of the words without its low byte. -/
private theorem high_sum :
    h.toNat + w.high.toNat + (lowSum l w f).flags.carry.toNat =
      ((Word.ofBytes h l).toNat + w.toNat) / 256 := by
  have low := toNat_lowSum l w f
  have lowByte := (lowSum l w f).value.toNat_lt
  rw [Word.toNat_ofBytes, Word.toNat_high]
  omega

/-- A sum of words is its two bytes, and the carry of the high one. -/
theorem sum_eq :
    (Word.ofBytes h l).toNat + w.toNat =
      (Word.ofBytes (highSum h l w f).value (lowSum l w f).value).toNat +
        65536 * (highSum h l w f).flags.carry.toNat := by
  have low := toNat_lowSum l w f
  have high := toNat_highSum h l w f
  rw [Word.toNat_ofBytes, Word.toNat_ofBytes]
  omega

private theorem carry_highSum :
    (highSum h l w f).flags.carry = true ↔ 65536 ≤ (Word.ofBytes h l).toNat + w.toNat := by
  have sum := sum_eq h l w f
  have room := (Word.ofBytes (highSum h l w f).value (lowSum l w f).value).toNat_lt
  have carried := Bool.toNat_le (highSum h l w f).flags.carry
  rw [← Bool.toNat_eq_one]
  omega

/-- Bit 3 of the high bytes is bit 11 of the words. -/
private theorem halfCarry_highSum :
    (highSum h l w f).flags.halfCarry = (addWord (.ofBytes h l) w f).flags.halfCarry := by
  have bit (n : ℕ) : (n / 256).testBit 3 = n.testBit 11 :=
    Nat.testBit_div_two_pow (n := 8) n 3
  have operand : w.high.bit 3 = w.toNat.testBit 11 := by
    rw [← bit, ← Word.toNat_high]
    rfl
  calc (highSum h l w f).flags.halfCarry
      = ((h.toNat + w.high.toNat + (lowSum l w f).flags.carry.toNat).testBit 3 &&
          w.high.bit 3) := rfl
    _ = (addWord (.ofBytes h l) w f).flags.halfCarry := by
      rw [high_sum, bit, operand]
      rfl

/-- The flags are those of the high bytes, except that the zero flag stays. -/
theorem flags_addWord :
    (addWord (.ofBytes h l) w f).flags = { (highSum h l w f).flags with zero := f.zero } := by
  have carry : (addWord (.ofBytes h l) w f).flags.carry = (highSum h l w f).flags.carry := by
    rw [Bool.eq_iff_iff, carry_highSum]
    exact decide_eq_true_iff
  simp only [← carry, halfCarry_highSum]
  rfl

private theorem ofNat_value_addWord :
    UInt16.ofNat (addWord (.ofBytes h l) w f).value =
      Word.ofBytes (highSum h l w f).value (lowSum l w f).value := by
  have sum : (addWord (.ofBytes h l) w f).value = _ := sum_eq h l w f
  apply UInt16.toNat_inj.mp
  rw [UInt16.toNat_ofNat', sum, Nat.add_mul_mod_self_left, Nat.mod_eq_of_lt (UInt16.toNat_lt _)]

end Bytes

end Alu

namespace Machine

/-- **Adding a pair to `hl` is adding its low byte to `l` and then its high byte with carry to `h`.**
The bytes are those of the sum, and the flags those that the second addition leaves, except that the
zero flag stays as it was. Nothing else changes. Both bytes are taken from the pair as it was before,
so this holds when `hl` is added to itself, too. -/
theorem addHl_exact (m : Machine) (p : Pair) :
    let v := m.regs.pair p
    let low := Alu.Op.add.apply m.regs.l v.low m.regs.flags
    let high := Alu.Op.adc.apply m.regs.h v.high low.flags
    let n := m.execute (.addHl p)
    n = { m with
      regs.h := high.value, regs.l := low.value
      regs.flags := { high.flags with zero := m.regs.flags.zero } } ∧
    n.regs.hl = m.regs.hl + v ∧
    (n.regs.flags.carry = true ↔ 65536 ≤ m.regs.hl.toNat + v.toNat) := by
  intro v low high n
  have flags : (Alu.addWord m.regs.hl v m.regs.flags).flags =
      { high.flags with zero := m.regs.flags.zero } :=
    Alu.flags_addWord m.regs.h m.regs.l v m.regs.flags
  have value : UInt16.ofNat (Alu.addWord m.regs.hl v m.regs.flags).value =
      Word.ofBytes high.value low.value :=
    Alu.ofNat_value_addWord m.regs.h m.regs.l v m.regs.flags
  have carry : (Alu.addWord m.regs.hl v m.regs.flags).flags.carry = high.flags.carry := by rw [flags]
  refine ⟨?_, ?_, ?_⟩
  · calc n
        = (m.setFlags (Alu.addWord m.regs.hl v m.regs.flags).flags).setPair .hl
            (.ofNat (Alu.addWord m.regs.hl v m.regs.flags).value) := rfl
      _ = (m.setFlags { high.flags with zero := m.regs.flags.zero }).setPair .hl
            (.ofBytes high.value low.value) := by rw [flags, value]
      _ = _ := by simp only [setPair, Registers.setPair, Registers.setHl, Word.high_ofBytes,
            Word.low_ofBytes, setFlags]
  · calc n.regs.hl
        = UInt16.ofNat (m.regs.hl.toNat + v.toNat) := Registers.pair_setPair _ .hl _
      _ = m.regs.hl + v := by rw [UInt16.ofNat_add, UInt16.ofNat_toNat, UInt16.ofNat_toNat]
  · exact (Bool.eq_iff_iff.mp carry).trans (Alu.carry_highSum m.regs.h m.regs.l v m.regs.flags)

end Machine

end Sm83
