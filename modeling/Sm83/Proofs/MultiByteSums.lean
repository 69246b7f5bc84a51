import Sm83.Machine.Execute
import Sm83.Proofs.CarryChains
import Sm83.Proofs.StateUpdates

/-! Sums and differences of numbers of many bytes. An addition with carry yields its byte and the carry
that the byte above has to take in, and a subtraction the borrow, down to the extremes of what a byte
and a carry can come to. So passes of them over two numbers are exact (`sums_exact`), whether it is the
operation alone that is repeated or the accumulator that is loaded, worked on and read. -/
namespace Sm83

/-! ## One byte -/

namespace Alu

/-- Works on a digit of one number and one of another: the byte that comes out, and the flags. -/
def Op.onDigits (op : Op) (d : Byte × Byte) (f : Flags) : Byte × Flags :=
  let r := op.apply d.1 d.2 f
  (r.value, r.flags)

/-- What a digit of one number and one of another weigh, the second one being added or taken off. -/
def weight (sign : ℤ) (d : Byte × Byte) : ℤ :=
  d.1.toNat + sign * d.2.toNat

theorem toNat_add (a v : Byte) (carryIn : Bool) :
    (UInt8.ofNat (add a v carryIn).value).toNat + 256 * (add a v carryIn).flags.carry.toNat =
      a.toNat + v.toNat + carryIn.toNat := by
  have := a.toNat_lt
  have := v.toNat_lt
  have := Bool.toNat_le carryIn
  simp only [add, UInt8.toNat_ofNat']
  by_cases large : 256 ≤ a.toNat + v.toNat + carryIn.toNat
  · simp only [large, decide_true, Bool.toNat_true]
    omega
  · simp only [large, decide_false, Bool.toNat_false]
    omega

theorem toNat_sub (a v : Byte) (borrowIn : Bool) :
    (UInt8.ofInt (sub a v borrowIn).value).toNat - 256 * (sub a v borrowIn).flags.carry.toNat =
      (a.toNat - v.toNat - borrowIn.toNat : ℤ) := by
  have := a.toNat_lt
  have := v.toNat_lt
  have := Bool.toNat_le borrowIn
  simp only [sub, UInt8.ofInt, UInt8.toNat_ofNat']
  by_cases negative : (a.toNat - v.toNat - borrowIn.toNat : ℤ) < 0
  · simp only [negative, decide_true, Bool.toNat_true]
    omega
  · simp only [negative, decide_false, Bool.toNat_false]
    omega

private theorem balancesUp_adc :
    BalancesUp 1 (weight 1) (fun f => 1 * f.carry.toNat) Op.adc.onDigits := by
  intro d f
  have step := toNat_add d.1 d.2 f.carry
  simp only [Op.onDigits, Op.apply, weight]
  omega

private theorem balancesUp_sbc :
    BalancesUp (-1) (weight (-1)) (fun f => -1 * f.carry.toNat) Op.sbc.onDigits := by
  intro d f
  have step := toNat_sub d.1 d.2 f.carry
  simp only [Op.onDigits, Op.apply, weight]
  omega

/-- Without a carry coming in, an addition is one with a carry that is clear. -/
theorem balancesUp_add : BalancesUp 1 (weight 1) (fun _ => 0) Op.add.onDigits :=
  fun d f => balancesUp_adc d { f with carry := false }

private theorem balancesUp_sub : BalancesUp (-1) (weight (-1)) (fun _ => 0) Op.sub.onDigits :=
  fun d f => balancesUp_sbc d { f with carry := false }

private theorem total_weight (sign : ℤ) {xs ys : List Byte} (same : xs.length = ys.length) :
    total (weight sign) (xs.zip ys) = number xs + sign * number ys := by
  induction xs generalizing ys with
  | nil =>
    cases ys with
    | nil => simp [total]
    | cons y ys => cases same
  | cons x xs ih =>
    cases ys with
    | nil => cases same
    | cons y ys =>
      rw [List.zip_cons_cons, total, ih (Nat.succ.inj same), number_cons, number_cons, weight]
      push_cast
      ring

end Alu

/-! ## The accumulator -/

namespace Machine

/-- Works on the accumulator with a byte. -/
def operate (m : Machine) (op : Alu.Op) (v : Byte) : Machine :=
  m.store .a (op.apply m.regs.a v m.regs.flags)

/-- The byte that an instruction works on the accumulator with is the one that its source holds. -/
theorem execute_alu (m : Machine) (op : Alu.Op) (s : Source) :
    m.execute (.alu op s) = (m.pastSource s).operate op (m.source s) := by
  cases s <;> rfl

/-- Loads the accumulator with a digit, works on it with another, and reads it. -/
def onDigits (op : Alu.Op) (d : Byte × Byte) (m : Machine) : Byte × Machine :=
  let t := (m.setSlot .a d.1).operate op d.2
  (t.regs.a, t)

/-- Works through digits with the accumulator, the first operation on the lowest ones and the other on
those above. -/
def accumulate (m : Machine) (lowest other : Alu.Op) (digits : List (Byte × Byte)) :
    List Byte × Machine :=
  passUp (onDigits lowest) (onDigits other) digits m

/-- The accumulator yields what the operations yield. -/
theorem accumulate_eq (m : Machine) (lowest other : Alu.Op) (digits : List (Byte × Byte)) :
    Prod.map id (·.regs.flags) (m.accumulate lowest other digits) =
      passUp lowest.onDigits other.onDigits digits m.regs.flags :=
  passUp_map (fun m : Machine => m.regs.flags) (fun _ _ => rfl) (fun _ _ => rfl) digits m

end Machine

/-! ## The numbers -/

section Numbers

variable {xs ys : List Byte} {entry : Flags → ℤ} {lowest : Byte × Byte → Flags → Byte × Flags}

private theorem length_zip_of_eq (same : xs.length = ys.length) :
    (xs.zip ys).length = xs.length := by
  rw [List.length_zip, ← same, min_self]

private theorem zip_ne_nil (same : xs.length = ys.length) (nonempty : xs ≠ []) :
    xs.zip ys ≠ [] := by
  rw [← List.length_pos_iff, length_zip_of_eq same, List.length_pos_iff]
  exact nonempty

private theorem yields_sum (balances : BalancesUp 1 (Alu.weight 1) entry lowest)
    (same : xs.length = ys.length) (nonempty : xs ≠ []) (f : Flags) :
    Yields (passUp lowest Alu.Op.adc.onDigits (xs.zip ys) f) xs.length
      ((number xs + number ys + entry f) % 256 ^ xs.length)
      (256 ^ xs.length ≤ number xs + number ys + entry f) := by
  have length := length_zip_of_eq same
  have balance := number_passUp balances Alu.balancesUp_adc (zip_ne_nil same nonempty) f
  rw [length, Alu.total_weight 1 same, one_mul (number ys : ℤ)] at balance
  exact .of_carry ((length_passUp _ _).trans length) balance

private theorem yields_difference (balances : BalancesUp (-1) (Alu.weight (-1)) entry lowest)
    (same : xs.length = ys.length) (nonempty : xs ≠ []) (f : Flags) :
    Yields (passUp lowest Alu.Op.sbc.onDigits (xs.zip ys) f) xs.length
      ((number xs - number ys + entry f) % 256 ^ xs.length)
      (number xs - number ys + entry f < 0) := by
  have length := length_zip_of_eq same
  have balance := number_passUp balances Alu.balancesUp_sbc (zip_ne_nil same nonempty) f
  rw [length, Alu.total_weight (-1) same, neg_one_mul (number ys : ℤ), ← sub_eq_add_neg] at balance
  exact .of_borrow ((length_passUp _ _).trans length) balance

/-- Passes over two numbers yield their sum and their difference, given the carry at the start. -/
structure ExactSums (pass : (lowest other : Alu.Op) → List Byte × Flags) (xs ys : List Byte)
    (carry : Bool) : Prop where
  /-- The carry at the start is added too, and a carry is left if the sum does not fit. -/
  adc : Yields (pass .adc .adc) xs.length
    ((number xs + number ys + carry.toNat) % 256 ^ xs.length)
    (256 ^ xs.length ≤ number xs + number ys + carry.toNat)
  /-- The carry at the start is taken off too, and a carry is left if there is not enough. -/
  sbc : Yields (pass .sbc .sbc) xs.length
    ((number xs - number ys - carry.toNat) % 256 ^ xs.length)
    (number xs < number ys + carry.toNat)
  /-- An addition to begin with leaves the carry at the start out. -/
  add : Yields (pass .add .adc) xs.length
    ((number xs + number ys) % 256 ^ xs.length)
    (256 ^ xs.length ≤ number xs + number ys)
  /-- A subtraction to begin with leaves the carry at the start out. -/
  sub : Yields (pass .sub .sbc) xs.length
    ((number xs - number ys) % 256 ^ xs.length)
    (number xs < number ys)

private theorem exactSums (same : xs.length = ys.length) (nonempty : xs ≠ []) (f : Flags) :
    ExactSums (fun lowest other => passUp lowest.onDigits other.onDigits (xs.zip ys) f) xs ys
      f.carry where
  adc := by
    have yields := yields_sum Alu.balancesUp_adc same nonempty f
    rw [one_mul] at yields
    exact_mod_cast yields
  sbc := by
    have yields := yields_difference Alu.balancesUp_sbc same nonempty f
    rw [neg_one_mul, ← sub_eq_add_neg] at yields
    refine ⟨yields.length, yields.value, yields.carry.trans ?_⟩
    omega
  add := by
    have yields := yields_sum Alu.balancesUp_add same nonempty f
    rw [add_zero] at yields
    exact_mod_cast yields
  sub := by
    have yields := yields_difference Alu.balancesUp_sub same nonempty f
    rw [add_zero] at yields
    refine ⟨yields.length, yields.value, yields.carry.trans ?_⟩
    omega

/-- **Sums and differences of many bytes are exact.** Between one pair of bytes and the next the carry
is all that is handed on, and at the end it says that the sum has no room or that the difference is
negative. The operations that leave the carry out may begin a pass, and then it does not matter how it
was. The accumulator yields the same, loaded with each byte of the first number in turn, and what the
instructions do to it is `operate`. -/
theorem sums_exact (same : xs.length = ys.length) (nonempty : xs ≠ []) :
    (∀ f : Flags, ExactSums
      (fun lowest other => passUp lowest.onDigits other.onDigits (xs.zip ys) f) xs ys f.carry) ∧
    (∀ m : Machine, ExactSums
      (fun lowest other => Prod.map id (·.regs.flags) (m.accumulate lowest other (xs.zip ys))) xs ys
      m.regs.flags.carry) ∧
    ∀ (m : Machine) (op : Alu.Op) (s : Source),
      m.execute (.alu op s) = (m.pastSource s).operate op (m.source s) := by
  refine ⟨exactSums same nonempty, ?_, Machine.execute_alu⟩
  intro m
  simp only [Machine.accumulate_eq]
  exact exactSums same nonempty m.regs.flags

/-- A pair of bytes that comes to 511 with the carry, and one that comes to -256. -/
theorem sums_exact_atExtremes :
    [0xFF, 0x00].length = ([0xFF, 0xFF] : List Byte).length ∧ [0xFF, 0x00] ≠ ([] : List Byte) ∧
    Yields (passUp Alu.Op.adc.onDigits Alu.Op.adc.onDigits
      (([0xFF, 0x00] : List Byte).zip [0xFF, 0xFF]) (.unpack 0x40)) 2 255 True ∧
    Yields (passUp Alu.Op.sbc.onDigits Alu.Op.sbc.onDigits
      (([0xFF, 0x00] : List Byte).zip [0xFF, 0xFF]) (.unpack 0x40)) 2 255 True := by
  have same : [0xFF, 0x00].length = ([0xFF, 0xFF] : List Byte).length := rfl
  have nonempty : [0xFF, 0x00] ≠ ([] : List Byte) := by decide
  obtain ⟨adc, sbc, -, -⟩ := (sums_exact same nonempty).1 (.unpack 0x40)
  refine ⟨same, nonempty, ?_, ?_⟩
  · exact ⟨adc.length, adc.value.trans (by decide), adc.carry.trans (by decide)⟩
  · exact ⟨sbc.length, sbc.value.trans (by decide), sbc.carry.trans (by decide)⟩

end Numbers

end Sm83
