import Sm83.Proofs.CarryChains
import Sm83.Proofs.OpcodeTables

/-! Shifts of numbers of many bytes by one place. A shift of a byte to the left takes a bit in at the
bottom and hands its top bit on to the byte above, and one to the right the other way round. What comes
in is the carry that was handed on, read before it is overwritten, so a pass over a number shifts it as
a whole (`shifts_exact`). -/
namespace Sm83

/-! ## One byte -/

namespace Shift

/-- Works on a digit of a number: the byte that comes out, and the flags. -/
def onDigit (s : Shift) (v : Byte) (f : Flags) : Byte × Flags :=
  let r := s.apply v f
  (r.value, r.flags)

variable {s : Shift}

/-- To the left a bit comes in at the bottom, and the top one counts for the byte above. -/
theorem balancesUp_onDigit {entry : Flags → Bool}
    (results : ∀ v f, s.result f.carry v = Rotate.rl.result (entry f) v)
    (carries : ∀ v, s.carryOut v = v.bit 7) :
    BalancesUp 1 (fun v => 2 * v.toNat) (fun f => 1 * (entry f).toNat) s.onDigit := by
  have bytes : ∀ c v,
      (Rotate.rl.result c v).toNat + 256 * (v.bit 7).toNat = 2 * v.toNat + c.toNat := by
    intro c
    apply Byte.forall_of_fields
    cases c <;> decide
  intro v f
  have step := bytes (entry f) v
  simp only [onDigit, apply, results, carries]
  omega

/-- To the right a bit comes in at the top, and the bottom one counts for the byte below. -/
theorem balancesDown_onDigit {entry : Byte → Flags → Bool}
    (results : ∀ v f, s.result f.carry v = Rotate.rr.result (entry v f) v)
    (carries : ∀ v, s.carryOut v = v.bit 0) : BalancesDown entry s.onDigit := by
  have bytes : ∀ c v,
      2 * (Rotate.rr.result c v).toNat + (v.bit 0).toNat = v.toNat + 256 * c.toNat := by
    intro c
    apply Byte.forall_of_fields
    cases c <;> decide
  intro v f
  simp only [onDigit, apply, results, carries]
  exact bytes (entry v f) v

private theorem balancesUp_rl :
    BalancesUp 1 (fun v => 2 * v.toNat) (fun f => 1 * f.carry.toNat) (rotate .rl).onDigit :=
  balancesUp_onDigit (fun _ _ => rfl) (fun _ => rfl)

private theorem balancesUp_sla :
    BalancesUp 1 (fun v => 2 * v.toNat) (fun _ => 1 * false.toNat) sla.onDigit :=
  balancesUp_onDigit (fun _ _ => UInt8.or_zero.symm) (fun _ => rfl)

private theorem balancesDown_rr : BalancesDown (fun _ f => f.carry) (rotate .rr).onDigit :=
  balancesDown_onDigit (fun _ _ => rfl) (fun _ => rfl)

private theorem balancesDown_srl : BalancesDown (fun _ _ => false) srl.onDigit :=
  balancesDown_onDigit (fun _ _ => UInt8.or_zero.symm) (fun _ => rfl)

private theorem balancesDown_sra : BalancesDown (fun v _ => v.bit 7) sra.onDigit :=
  balancesDown_onDigit (fun _ _ => rfl) (fun _ => rfl)

end Shift

/-! ## The numbers -/

section Numbers

variable {xs : List Byte}

/-- The number that bytes stand for in two's complement. -/
def signed (bytes : List Byte) : ℤ :=
  (number bytes : ℤ).bmod (256 ^ bytes.length)

/-- The highest bit of a number. -/
def topBit (bytes : List Byte) : Bool :=
  (number bytes).testBit (8 * bytes.length - 1)

private theorem total_double (xs : List Byte) :
    total (fun v => 2 * v.toNat) xs = 2 * number xs := by
  induction xs with
  | nil => rfl
  | cons v xs ih =>
    rw [total, ih, number_cons]
    push_cast
    ring

/-- The highest bit is worth half of what so many bytes have room for. -/
private theorem pow_length (nonempty : xs ≠ []) :
    256 ^ xs.length = 2 * 2 ^ (8 * xs.length - 1) := by
  have positive : 0 < xs.length := List.length_pos_iff.mpr nonempty
  rw [← pow_succ', Nat.sub_add_cancel (by omega), pow_mul]
  norm_num

private theorem topBit_iff (nonempty : xs ≠ []) :
    topBit xs = true ↔ 256 ^ xs.length ≤ 2 * number xs := by
  have bound := number_lt xs
  have room := pow_length nonempty
  rw [topBit, room, Nat.mul_le_mul_left_iff two_pos]
  constructor
  · exact Nat.ge_two_pow_of_testBit
  · intro large
    exact Nat.testBit_of_two_pow_le_and_two_pow_add_one_gt large (by rw [pow_succ']; omega)

/-- The highest bit of the number is that of the highest byte. -/
private theorem bit_getLast (nonempty : xs ≠ []) : (xs.getLast nonempty).bit 7 = topBit xs := by
  have bytes : ∀ v : Byte, v.bit 7 = true ↔ 128 ≤ v.toNat := by
    apply Byte.forall_of_fields
    decide
  rw [Bool.eq_iff_iff, topBit_iff nonempty, bytes]
  obtain ⟨lows, high, rfl⟩ := List.eq_nil_or_concat' xs |>.resolve_left nonempty
  have bound := number_lt lows
  rw [List.getLast_concat, number_concat, List.length_append, List.length_singleton, pow_succ]
  constructor
  · intro large
    nlinarith
  · intro large
    by_contra small
    have step : high.toNat + 1 ≤ 128 := by omega
    nlinarith [Nat.mul_le_mul_left (256 ^ lows.length) step]

private theorem signed_eq (nonempty : xs ≠ []) :
    signed xs = number xs - (256 ^ xs.length * (topBit xs).toNat : ℕ) := by
  have bound := number_lt xs
  have room := pow_length nonempty
  have top := topBit_iff nonempty
  have small : (number xs : ℤ) % (256 ^ xs.length : ℕ) = number xs :=
    Int.emod_eq_of_lt (Int.natCast_nonneg _) (by exact_mod_cast bound)
  rw [signed, Int.bmod, small]
  cases h : topBit xs
  · simp only [h, Bool.false_eq_true, false_iff, not_le] at top
    rw [if_pos (by omega), Bool.toNat_false, Nat.mul_zero, Nat.cast_zero, sub_zero]
  · simp only [h, true_iff] at top
    rw [if_neg (by omega), Bool.toNat_true, Nat.mul_one]

end Numbers

/-! ## Passes -/

section Passes

variable {xs : List Byte}

/-- Shifts a number to the left, the first operation on the lowest byte and the other on those
above. -/
def shiftUp (lowest other : Shift) (xs : List Byte) (f : Flags) : List Byte × Flags :=
  passUp lowest.onDigit other.onDigit xs f

/-- Shifts a number to the right, the first operation on the highest byte and the other on those
below. -/
def shiftDown (highest other : Shift) (xs : List Byte) (f : Flags) : List Byte × Flags :=
  passDown highest.onDigit other.onDigit xs f

@[simp] theorem length_shiftUp (lowest other : Shift) (xs : List Byte) (f : Flags) :
    (shiftUp lowest other xs f).1.length = xs.length :=
  length_passUp _ _

@[simp] theorem length_shiftDown (highest other : Shift) (xs : List Byte) (f : Flags) :
    (shiftDown highest other xs f).1.length = xs.length :=
  length_passDown _ _

private theorem shiftUp_ne_nil (lowest other : Shift) (nonempty : xs ≠ []) (f : Flags) :
    (shiftUp lowest other xs f).1 ≠ [] := by
  rw [← List.length_pos_iff, length_shiftUp, List.length_pos_iff]
  exact nonempty

private theorem shiftDown_ne_nil (highest other : Shift) (nonempty : xs ≠ []) (f : Flags) :
    (shiftDown highest other xs f).1 ≠ [] := by
  rw [← List.length_pos_iff, length_shiftDown, List.length_pos_iff]
  exact nonempty

/-- The number is doubled and takes in a bit at the bottom. What has no room is the carry. -/
theorem shiftUp_balance {entry : Flags → Bool} {lowest : Shift}
    (balances : BalancesUp 1 (fun v => 2 * v.toNat) (fun f => 1 * (entry f).toNat) lowest.onDigit)
    (nonempty : xs ≠ []) (f : Flags) :
    number (shiftUp lowest (.rotate .rl) xs f).1 +
        256 ^ xs.length * (shiftUp lowest (.rotate .rl) xs f).2.carry.toNat =
      2 * number xs + (entry f).toNat := by
  have balance := number_passUp balances Shift.balancesUp_rl nonempty f
  rw [total_double, one_mul, one_mul] at balance
  exact_mod_cast balance

/-- The number takes in a bit above the highest one and is halved. What is left over is the carry. -/
theorem shiftDown_balance {entry : Byte → Flags → Bool} {highest : Shift}
    (balances : BalancesDown entry highest.onDigit) (nonempty : xs ≠ []) (f : Flags) :
    2 * number (shiftDown highest (.rotate .rr) xs f).1 +
        (shiftDown highest (.rotate .rr) xs f).2.carry.toNat =
      number xs + 256 ^ xs.length * (entry (xs.getLast nonempty) f).toNat :=
  number_passDown balances Shift.balancesDown_rr nonempty f

/-- The carry is the highest bit, whatever came in at the bottom. -/
theorem yields_double {entry : Flags → Bool} {lowest : Shift}
    (balances : BalancesUp 1 (fun v => 2 * v.toNat) (fun f => 1 * (entry f).toNat) lowest.onDigit)
    (nonempty : xs ≠ []) (f : Flags) :
    Yields (shiftUp lowest (.rotate .rl) xs f) xs.length
      ((2 * number xs + (entry f).toNat) % 256 ^ xs.length) (topBit xs = true) := by
  have balance := shiftUp_balance balances nonempty f
  have yields := Yields.of_carry (n := xs.length) (v := 2 * number xs + (entry f).toNat)
    (length_shiftUp _ _ xs f) (by rw [one_mul]; exact_mod_cast balance)
  have low := Bool.toNat_le (entry f)
  have room := pow_length nonempty
  refine ⟨yields.length, yields.value, yields.carry.trans ?_⟩
  rw [topBit_iff nonempty]
  norm_cast
  omega

private theorem yields_half {entry : Byte → Flags → Bool} {highest : Shift}
    (balances : BalancesDown entry highest.onDigit) (nonempty : xs ≠ []) (f : Flags) :
    Yields (shiftDown highest (.rotate .rr) xs f) xs.length
      (number xs / 2 + (entry (xs.getLast nonempty) f).toNat * 256 ^ xs.length / 2)
      (number xs % 2 = 1) := by
  have balance := shiftDown_balance balances nonempty f
  have room := pow_length nonempty
  have top : 2 * ((entry (xs.getLast nonempty) f).toNat * 256 ^ xs.length / 2) =
      256 ^ xs.length * (entry (xs.getLast nonempty) f).toNat := by
    rw [room, mul_assoc 2, Nat.mul_left_comm, Nat.mul_div_cancel_left _ two_pos, Nat.mul_comm (_ ^ _)]
  have low := Bool.toNat_le (shiftDown highest (.rotate .rr) xs f).2.carry
  refine ⟨length_shiftDown _ _ xs f, ?_, ?_⟩
  · norm_cast
    omega
  · rw [← Bool.toNat_eq_one]
    omega

/-- The sign comes in at the top, where it was already. -/
theorem signed_shiftDown_sra (nonempty : xs ≠ []) (f : Flags) :
    signed (shiftDown .sra (.rotate .rr) xs f).1 = signed xs / 2 := by
  have filled := shiftDown_ne_nil .sra (.rotate .rr) nonempty f
  have balance := shiftDown_balance Shift.balancesDown_sra nonempty f
  rw [bit_getLast] at balance
  have low := Bool.toNat_le (shiftDown .sra (.rotate .rr) xs f).2.carry
  have bound := number_lt xs
  have room := pow_length nonempty
  have sign := topBit_iff nonempty
  have kept : topBit (shiftDown .sra (.rotate .rr) xs f).1 = topBit xs := by
    rw [Bool.eq_iff_iff, topBit_iff filled, length_shiftDown, sign]
    cases top : topBit xs with
    | false =>
      rw [top, Bool.toNat_false] at balance
      simp only [top, Bool.false_eq_true, false_iff] at sign
      omega
    | true =>
      rw [top, Bool.toNat_true] at balance
      simp only [top, true_iff] at sign
      omega
  rw [signed_eq filled, signed_eq nonempty, kept, length_shiftDown]
  -- what the sign is worth is even, so it can be halved apart from the rest
  have even : 256 ^ xs.length * (topBit xs).toNat =
      2 * (2 ^ (8 * xs.length - 1) * (topBit xs).toNat) := by
    rw [room, mul_assoc]
  omega

/-- A pass up and one down lead back: the second takes in at the top what the first hands on there. -/
theorem shiftDown_shiftUp (nonempty : xs ≠ []) (f : Flags) :
    let up := shiftUp (.rotate .rl) (.rotate .rl) xs f
    let down := shiftDown (.rotate .rr) (.rotate .rr) up.1 up.2
    down.1 = xs ∧ down.2.carry = f.carry := by
  intro up down
  have forth := shiftUp_balance Shift.balancesUp_rl nonempty f
  have back := shiftDown_balance Shift.balancesDown_rr
    (shiftUp_ne_nil (.rotate .rl) (.rotate .rl) nonempty f) up.2
  rw [length_shiftUp, forth] at back
  have length : down.1.length = xs.length := by rw [length_shiftDown, length_shiftUp]
  have same : 2 * number down.1 + down.2.carry.toNat = 2 * number xs + f.carry.toNat := back
  have handedOn := Bool.toNat_le down.2.carry
  have atStart := Bool.toNat_le f.carry
  have carry : down.2.carry = f.carry := by
    rw [Bool.eq_iff_iff, ← Bool.toNat_eq_one, ← Bool.toNat_eq_one]
    omega
  rw [carry] at same
  exact ⟨eq_of_number_eq length (by omega), carry⟩

/-- A pass down and one up lead back. -/
theorem shiftUp_shiftDown (nonempty : xs ≠ []) (f : Flags) :
    let down := shiftDown (.rotate .rr) (.rotate .rr) xs f
    let up := shiftUp (.rotate .rl) (.rotate .rl) down.1 down.2
    up.1 = xs ∧ up.2.carry = f.carry := by
  intro down up
  have forth := shiftDown_balance Shift.balancesDown_rr nonempty f
  have back := shiftUp_balance Shift.balancesUp_rl
    (shiftDown_ne_nil (.rotate .rr) (.rotate .rr) nonempty f) down.2
  rw [length_shiftDown, forth] at back
  have length : up.1.length = xs.length := by rw [length_shiftUp, length_shiftDown]
  have bound := number_lt xs
  have bound' := number_lt up.1
  have same : number up.1 + 256 ^ xs.length * up.2.carry.toNat =
      number xs + 256 ^ xs.length * f.carry.toNat := back
  rw [length] at bound'
  have carry : up.2.carry = f.carry := by
    cases last : up.2.carry <;> cases initial : f.carry <;>
      simp only [last, initial, Bool.toNat_true, Bool.toNat_false] at same ⊢ <;> omega
  rw [carry] at same
  exact ⟨eq_of_number_eq length (by omega), carry⟩

/-- Passes over a number shift it by one place, given the flags at the start. -/
structure ExactShifts (xs : List Byte) (f : Flags) : Prop where
  /-- Doubled, with a zero coming in. -/
  sla : Yields (shiftUp .sla (.rotate .rl) xs f) xs.length
    (2 * number xs % 256 ^ xs.length) (topBit xs = true)
  /-- Doubled, with the carry at the start coming in. -/
  rl : Yields (shiftUp (.rotate .rl) (.rotate .rl) xs f) xs.length
    ((2 * number xs + f.carry.toNat) % 256 ^ xs.length) (topBit xs = true)
  /-- Halved, with a zero coming in. -/
  srl : Yields (shiftDown .srl (.rotate .rr) xs f) xs.length
    (number xs / 2) (number xs % 2 = 1)
  /-- Halved, with the carry at the start coming in. -/
  rr : Yields (shiftDown (.rotate .rr) (.rotate .rr) xs f) xs.length
    (number xs / 2 + f.carry.toNat * 256 ^ xs.length / 2) (number xs % 2 = 1)
  /-- The signed number halved, which its two's complement has room for. -/
  sra : (shiftDown .sra (.rotate .rr) xs f).1.length = xs.length ∧
    signed (shiftDown .sra (.rotate .rr) xs f).1 = signed xs / 2 ∧
    ((shiftDown .sra (.rotate .rr) xs f).2.carry = true ↔ number xs % 2 = 1)
  /-- Up and down again. -/
  upDown : let up := shiftUp (.rotate .rl) (.rotate .rl) xs f
    let down := shiftDown (.rotate .rr) (.rotate .rr) up.1 up.2
    down.1 = xs ∧ down.2.carry = f.carry
  /-- Down and up again. -/
  downUp : let down := shiftDown (.rotate .rr) (.rotate .rr) xs f
    let up := shiftUp (.rotate .rl) (.rotate .rl) down.1 down.2
    up.1 = xs ∧ up.2.carry = f.carry

/-- **Shifts of many bytes by one place are exact.** Between one byte and the next the carry is all
that is handed on. To the left it comes out as the highest bit of the number, and to the right as the
lowest one. A first shift that keeps the sign halves the signed number, rounding down. A pass through
the carry in one direction is undone by one in the other. -/
theorem shifts_exact (nonempty : xs ≠ []) (f : Flags) : ExactShifts xs f where
  sla := by simpa using yields_double Shift.balancesUp_sla nonempty f
  rl := yields_double Shift.balancesUp_rl nonempty f
  srl := by simpa using yields_half Shift.balancesDown_srl nonempty f
  rr := yields_half Shift.balancesDown_rr nonempty f
  sra := ⟨length_shiftDown _ _ xs f, signed_shiftDown_sra nonempty f,
    (yields_half Shift.balancesDown_sra nonempty f).carry⟩
  upDown := shiftDown_shiftUp nonempty f
  downUp := shiftUp_shiftDown nonempty f

/-- The sign of -32767 stays, and its lowest bit is left over. -/
theorem shifts_exact_ofNegative :
    [0x01, 0x80] ≠ ([] : List Byte) ∧ signed [0x01, 0x80] = -32767 ∧
    signed (shiftDown .sra (.rotate .rr) [0x01, 0x80] (.unpack 0x00)).1 = -16384 ∧
    (shiftDown .sra (.rotate .rr) [0x01, 0x80] (.unpack 0x00)).2.carry = true := by
  have nonempty : [0x01, 0x80] ≠ ([] : List Byte) := by decide
  have negative : signed [0x01, 0x80] = -32767 := by decide
  obtain ⟨-, half, carry⟩ := (shifts_exact nonempty (.unpack 0x00)).sra
  rw [negative] at half
  exact ⟨nonempty, negative, half, carry.mpr (by decide)⟩

end Passes

end Sm83
