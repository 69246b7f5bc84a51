import Mathlib.Algebra.Group.Fin.Basic
import Mathlib.Algebra.GroupWithZero.Nat
import Mathlib.Logic.Function.Iterate
import Sm83.Proofs.OpcodeTables
import Sm83.Proofs.StateUpdates

/-! What the operations of the extended table do. Every byte is the opcode of one operation on one slot,
and it writes that slot and the flags at most (`executeExtended_eq`). The rotations turn the bits of
their slot round, those through the carry with the carry as a ninth bit, so however often one of them is
repeated it comes to a single rotation, and one in the other direction leads back (`extended_exact`). -/
namespace Sm83

/-! ## Rotations of bits -/

section Rotations

variable {w : ℕ} [NeZero w] (x : BitVec w) (k : ℕ) (i : Fin w)

/-- After a rotation to the left a bit is the one that was so many places below, going round. -/
theorem bit_rotateLeft :
    (x.rotateLeft k).getLsbD i = x.getLsbD (i - Fin.ofNat w k : Fin w) := by
  have inside := i.isLt
  have turn : k % w < w := Nat.mod_lt k (Nat.pos_of_neZero w)
  have place : (i - Fin.ofNat w k).val = if i.val < k % w then w - k % w + i else i - k % w := by
    rw [Fin.val_sub, Fin.val_ofNat]
    split
    · exact Nat.mod_eq_of_lt (by omega)
    · rw [Nat.mod_eq_sub_mod (by omega), Nat.mod_eq_of_lt (by omega)]
      omega
  rw [BitVec.getLsbD_rotateLeft, place]
  split <;> simp [*]

/-- After a rotation to the right a bit is the one that was so many places above, going round. -/
theorem bit_rotateRight :
    (x.rotateRight k).getLsbD i = x.getLsbD (i + Fin.ofNat w k : Fin w) := by
  have inside := i.isLt
  have turn : k % w < w := Nat.mod_lt k (Nat.pos_of_neZero w)
  have place : (i + Fin.ofNat w k).val =
      if i.val < w - k % w then k % w + i else i - (w - k % w) := by
    rw [Fin.val_add, Fin.val_ofNat]
    split
    · rw [Nat.mod_eq_of_lt (by omega), Nat.add_comm]
    · rw [Nat.mod_eq_sub_mod (by omega), Nat.mod_eq_of_lt (by omega)]
      omega
  rw [BitVec.getLsbD_rotateRight, place]
  split <;> simp [*]

omit [NeZero w] in
private theorem eq_of_bits {y : BitVec w} (same : ∀ i : Fin w, x.getLsbD i = y.getLsbD i) :
    x = y := by
  apply BitVec.eq_of_getLsbD_eq
  intro i inside
  exact same ⟨i, inside⟩

private theorem places_succ : Fin.ofNat w (k + 1) = Fin.ofNat w 1 + Fin.ofNat w k := by
  apply Fin.ext
  rw [Fin.val_add, Fin.val_ofNat, Fin.val_ofNat, Fin.val_ofNat, ← Nat.add_mod, Nat.add_comm]

private theorem iterate_rotateLeft : (·.rotateLeft 1)^[k] x = x.rotateLeft (k % w) := by
  rw [BitVec.rotateLeft_mod_eq_rotateLeft]
  induction k with
  | zero =>
    apply eq_of_bits
    intro i
    have still : Fin.ofNat w 0 = 0 := rfl
    rw [bit_rotateLeft, still, sub_zero]
    rfl
  | succ k ih =>
    apply eq_of_bits
    intro i
    rw [Function.iterate_succ_apply', ih]
    simp only [bit_rotateLeft, places_succ k, sub_sub]

private theorem rotateRight_rotateLeft : (x.rotateLeft k).rotateRight k = x := by
  apply eq_of_bits
  intro i
  rw [bit_rotateRight, bit_rotateLeft, add_sub_cancel_right]

private theorem rotateLeft_rotateRight : (x.rotateRight k).rotateLeft k = x := by
  apply eq_of_bits
  intro i
  rw [bit_rotateLeft, bit_rotateRight, sub_add_cancel]

private theorem iterate_rotateRight : (·.rotateRight 1)^[k] x = x.rotateRight (k % w) := by
  have once : Function.LeftInverse (·.rotateRight 1) fun y : BitVec w => y.rotateLeft 1 :=
    fun y => rotateRight_rotateLeft y 1
  -- the steps to the right take back as many to the left that end in `x`
  calc (·.rotateRight 1)^[k] x
      = (·.rotateRight 1)^[k] ((·.rotateLeft 1)^[k] (x.rotateRight (k % w))) := by
        rw [iterate_rotateLeft, rotateLeft_rotateRight]
    _ = x.rotateRight (k % w) := once.iterate k _

end Rotations

/-! ## Opcodes -/

namespace Byte

variable (top : Fin 4) (middle bottom : Fin 8)

theorem top_ofFields : (ofFields top middle bottom).top = top := by
  apply Fin.ext
  simp only [ofFields, Byte.top, UInt8.toNat_ofNat']
  omega

theorem middle_ofFields : (ofFields top middle bottom).middle = middle := by
  apply Fin.ext
  simp only [ofFields, Byte.middle, UInt8.toNat_ofNat']
  omega

theorem bottom_ofFields : (ofFields top middle bottom).bottom = bottom := by
  apply Fin.ext
  simp only [ofFields, Byte.bottom, UInt8.toNat_ofNat']
  omega

end Byte

/-- The number of a slot in an opcode. -/
def Slot.number : Slot → Fin 8
  | .b => 0
  | .c => 1
  | .d => 2
  | .e => 3
  | .h => 4
  | .l => 5
  | .atHl => 6
  | .a => 7

/-- The number of a rotation or shift in an opcode. -/
def Shift.number : Shift → Fin 8
  | .rotate .rlc => 0
  | .rotate .rrc => 1
  | .rotate .rl => 2
  | .rotate .rr => 3
  | .sla => 4
  | .sra => 5
  | .swap => 6
  | .srl => 7

/-- The opcode of an operation on a slot. Of its fields the top one is the group, the middle one the
kind of rotation or shift, or else the number of a bit, and the bottom one the slot. -/
def Extended.opcode (s : Slot) : Extended → Byte
  | .shift f => .ofFields 0 f.number s.number
  | .testBit i => .ofFields 1 i s.number
  | .setBit i false => .ofFields 2 i s.number
  | .setBit i true => .ofFields 3 i s.number

theorem Slot.ofField_number (s : Slot) : ofField s.number = s := by
  cases s <;> rfl

theorem Slot.number_ofField (i : Fin 8) : (ofField i).number = i := by
  revert i
  decide

theorem Shift.ofField_number (f : Shift) : ofField f.number = f := by
  rcases f with r | _
  · cases r <;> rfl
  all_goals rfl

theorem Shift.number_ofField (i : Fin 8) : (ofField i).number = i := by
  revert i
  decide

namespace Extended

private theorem ofOpcode_opcode (s : Slot) (x : Extended) : Slot.ofOpcode (opcode s x) = s := by
  unfold Slot.ofOpcode opcode
  split <;> rw [Byte.bottom_ofFields, Slot.ofField_number]

private theorem decode_opcode (s : Slot) (x : Extended) : decode (opcode s x) = x := by
  rcases x with f | i | ⟨i, on⟩
  · simp only [opcode, decode, Byte.top_ofFields, Byte.middle_ofFields, Shift.ofField_number]
  · simp only [opcode, decode, Byte.top_ofFields, Byte.middle_ofFields]
  · cases on <;> simp only [opcode, decode, Byte.top_ofFields, Byte.middle_ofFields]

/-- Every byte is the opcode of an operation. -/
theorem exists_opcode (o : Byte) : ∃ s x, o = opcode s x := by
  apply Byte.forall_of_fields (p := fun o => ∃ s x, o = opcode s x)
  intro top middle bottom
  refine ⟨.ofField bottom, ?_⟩
  match top with
  | 0 =>
    refine ⟨.shift (.ofField middle), ?_⟩
    rw [opcode, Slot.number_ofField, Shift.number_ofField]
  | 1 =>
    refine ⟨.testBit middle, ?_⟩
    rw [opcode, Slot.number_ofField]
  | 2 =>
    refine ⟨.setBit middle false, ?_⟩
    rw [opcode, Slot.number_ofField]
  | 3 =>
    refine ⟨.setBit middle true, ?_⟩
    rw [opcode, Slot.number_ofField]

end Extended

/-! ## One operation -/

/-- The number of the bit that a rotation or shift moves out of the byte. None is moved out when the
halves change places. -/
def Shift.outgoing : Shift → Option (Fin 8)
  | .rotate .rlc | .rotate .rl | .sla => some 7
  | .rotate .rrc | .rotate .rr | .sra | .srl => some 0
  | .swap => none

private theorem Shift.carryOut_eq (f : Shift) (v : Byte) : f.carryOut v = f.outgoing.any v.bit := by
  rcases f with r | _
  · cases r <;> rfl
  all_goals rfl

private theorem Shift.keepsZero_eq (f : Shift) : f.keepsZero = decide (f ∈ [sla, sra, srl]) := by
  rcases f with r | _
  · cases r <;> rfl
  all_goals rfl

namespace Machine

variable (m : Machine) (s : Slot)

theorem executeExtended_shift (f : Shift) :
    m.executeExtended (Extended.opcode s (.shift f)) =
      m.store s (f.apply (m.slot s) m.regs.flags) := by
  simp only [executeExtended, Extended.decode_opcode, Extended.ofOpcode_opcode]

theorem executeExtended_testBit (i : Fin 8) :
    m.executeExtended (Extended.opcode s (.testBit i)) =
      m.setFlags (Alu.testBit (m.slot s) i m.regs.flags) := by
  simp only [executeExtended, Extended.decode_opcode, Extended.ofOpcode_opcode]

private theorem executeExtended_setBit (i : Fin 8) (on : Bool) :
    m.executeExtended (Extended.opcode s (.setBit i on)) =
      m.setSlot s ((m.slot s).setBit i on) := by
  simp only [executeExtended, Extended.decode_opcode, Extended.ofOpcode_opcode]

/-- An operation writes its slot and the flags, and nothing else. -/
theorem executeExtended_eq (x : Extended) :
    let n := m.executeExtended (Extended.opcode s x)
    n = (m.setFlags n.regs.flags).setSlot s (n.slot s) := by
  rcases x with f | i | ⟨i, on⟩
  · simp only [executeExtended_shift, flags_store, slot_store]
    rfl
  · simp only [executeExtended_testBit]
    exact (setSlot_slot _ s).symm
  · simp only [executeExtended_setBit, flags_setSlot, slot_setSlot]
    rfl

/-- Of the shifts, those that are no rotations leave the zero flag alone. -/
theorem flags_executeExtended_shift (f : Shift) :
    let n := m.executeExtended (Extended.opcode s (.shift f))
    n.regs.flags =
      { zero := if f ∈ [.sla, .sra, .srl] then m.regs.flags.zero else n.slot s == 0
        carry := f.outgoing.any (m.slot s).bit
        halfCarry := false
        negate := false } := by
  simp only [executeExtended_shift, flags_store, slot_store, Shift.apply, f.carryOut_eq,
    f.keepsZero_eq, decide_eq_true_eq]

private theorem slot_executeExtended_shift (f : Shift) :
    (m.executeExtended (Extended.opcode s (.shift f))).slot s =
      f.result m.regs.flags.carry (m.slot s) := by
  rw [executeExtended_shift, slot_store]
  rfl

/-! ## Repeated operations -/

/-- Carries out an opcode of the extended table so many times. -/
def repeatExtended (o : Byte) (k : ℕ) : Machine :=
  (·.executeExtended o)^[k] m

/-- The byte in a slot with the carry above it. -/
def carried : BitVec 9 :=
  .cons m.regs.flags.carry (m.slot s).toBitVec

private theorem carried_executeExtended_shift (f : Shift) :
    (m.executeExtended (Extended.opcode s (.shift f))).carried s =
      .cons (f.carryOut (m.slot s)) (f.result m.regs.flags.carry (m.slot s)).toBitVec := by
  rw [carried, slot_executeExtended_shift, executeExtended_shift, flags_store]
  rfl

/-- What nine bits hold is the carry and the byte. -/
private theorem of_carried_eq {n : Machine} (same : n.carried s = m.carried s) :
    n.slot s = m.slot s ∧ n.regs.flags.carry = m.regs.flags.carry := by
  have byte := congrArg (BitVec.setWidth 8) same
  have top := congrArg BitVec.msb same
  simp only [carried, BitVec.setWidth_cons, BitVec.msb_cons] at byte top
  exact ⟨UInt8.toBitVec_inj.mp byte, top⟩

/-- What an opcode does once to some part of a machine, it does again each time. -/
theorem part_repeatExtended {α : Type} (part : Machine → α) {o : Byte} {g : α → α}
    (once : ∀ m : Machine, part (m.executeExtended o) = g (part m)) (k : ℕ) :
    part (m.repeatExtended o k) = g^[k] (part m) :=
  Function.Semiconj.iterate_right once k m

/-- Repeats a rotation of a slot. -/
def repeatRotate (r : Rotate) (k : ℕ) : Machine :=
  m.repeatExtended (Extended.opcode s (.shift (.rotate r))) k

private theorem slot_repeatRotate {r : Rotate} {turn : BitVec 8 → BitVec 8}
    (once : ∀ c v, (r.result c v).toBitVec = turn v.toBitVec) (k : ℕ) :
    ((m.repeatRotate s r k).slot s).toBitVec = turn^[k] (m.slot s).toBitVec := by
  apply part_repeatExtended m fun m => (m.slot s).toBitVec
  intro m
  rw [slot_executeExtended_shift]
  exact once m.regs.flags.carry (m.slot s)

private theorem carried_repeatRotate {r : Rotate} {turn : BitVec 9 → BitVec 9}
    (once : ∀ c v, .cons ((Shift.rotate r).carryOut v) (r.result c v).toBitVec =
      turn (.cons c v.toBitVec)) (k : ℕ) :
    (m.repeatRotate s r k).carried s = turn^[k] (m.carried s) := by
  apply part_repeatExtended m fun m => m.carried s
  intro m
  rw [carried_executeExtended_shift]
  exact once m.regs.flags.carry (m.slot s)

private theorem slot_repeat_rlc (k : ℕ) :
    ((m.repeatRotate s .rlc k).slot s).toBitVec = (m.slot s).toBitVec.rotateLeft (k % 8) := by
  rw [← iterate_rotateLeft]
  exact slot_repeatRotate m s (fun _ _ => rfl) k

private theorem slot_repeat_rrc (k : ℕ) :
    ((m.repeatRotate s .rrc k).slot s).toBitVec = (m.slot s).toBitVec.rotateRight (k % 8) := by
  rw [← iterate_rotateRight]
  exact slot_repeatRotate m s (fun _ _ => rfl) k

private theorem carried_repeat_rl (k : ℕ) :
    (m.repeatRotate s .rl k).carried s = (m.carried s).rotateLeft (k % 9) := by
  rw [← iterate_rotateLeft]
  apply carried_repeatRotate
  intro c
  apply Byte.forall_of_fields
  cases c <;> decide

private theorem carried_repeat_rr (k : ℕ) :
    (m.repeatRotate s .rr k).carried s = (m.carried s).rotateRight (k % 9) := by
  rw [← iterate_rotateRight]
  apply carried_repeatRotate
  intro c
  apply Byte.forall_of_fields
  cases c <;> decide

private theorem slot_repeat_swap :
    (m.repeatExtended (Extended.opcode s (.shift .swap)) 2).slot s = m.slot s := by
  have halves : ∀ v : Byte, ∀ c d, Shift.swap.result c (Shift.swap.result d v) = v := by
    apply Byte.forall_of_fields
    decide
  simp only [repeatExtended, Function.iterate_succ_apply', Function.iterate_zero_apply,
    slot_executeExtended_shift]
  exact halves (m.slot s) _ _

/-- What the operations of the extended table do to a slot and the flags of a machine. -/
structure ExtendedLaws : Prop where
  /-- No operation writes anything but its slot and the flags. -/
  frame : ∀ x, let n := m.executeExtended (Extended.opcode s x)
    n = (m.setFlags n.regs.flags).setSlot s (n.slot s)
  /-- A test writes only flags: zero says that the bit is clear, and the carry stays. -/
  test : ∀ i, m.executeExtended (Extended.opcode s (.testBit i)) =
    m.setFlags
      { zero := !(m.slot s).bit i
        carry := m.regs.flags.carry
        halfCarry := false
        negate := false }
  /-- Setting or clearing a bit writes no flag. -/
  assign : ∀ i on,
    (m.executeExtended (Extended.opcode s (.setBit i on))).regs.flags = m.regs.flags
  /-- The carry is the bit that is moved out. The zero flag looks at the byte afterwards, except that
  the shifts that are no rotations leave it alone. -/
  shift : ∀ f, let n := m.executeExtended (Extended.opcode s (.shift f))
    n.regs.flags =
      { zero := if f ∈ [.sla, .sra, .srl] then m.regs.flags.zero else n.slot s == 0
        carry := f.outgoing.any (m.slot s).bit
        halfCarry := false
        negate := false }
  rlc : ∀ k, ((m.repeatRotate s .rlc k).slot s).toBitVec =
    (m.slot s).toBitVec.rotateLeft (k % 8)
  rrc : ∀ k, ((m.repeatRotate s .rrc k).slot s).toBitVec =
    (m.slot s).toBitVec.rotateRight (k % 8)
  rl : ∀ k, (m.repeatRotate s .rl k).carried s = (m.carried s).rotateLeft (k % 9)
  rr : ∀ k, (m.repeatRotate s .rr k).carried s = (m.carried s).rotateRight (k % 9)
  rlcRrc : ∀ k, ((m.repeatRotate s .rlc k).repeatRotate s .rrc k).slot s = m.slot s
  rrcRlc : ∀ k, ((m.repeatRotate s .rrc k).repeatRotate s .rlc k).slot s = m.slot s
  rlRr : ∀ k, let n := (m.repeatRotate s .rl k).repeatRotate s .rr k
    n.slot s = m.slot s ∧ n.regs.flags.carry = m.regs.flags.carry
  rrRl : ∀ k, let n := (m.repeatRotate s .rr k).repeatRotate s .rl k
    n.slot s = m.slot s ∧ n.regs.flags.carry = m.regs.flags.carry
  swapTwice : (m.repeatExtended (Extended.opcode s (.shift .swap)) 2).slot s = m.slot s

/-- **The extended table does what its fields say.** Every byte is the opcode of one operation on one
slot, the cell that `hl` points at and the two halves of `hl` included. It writes that slot and the
flags at most. Rotations that are repeated come to one rotation, modulo the eight bits of the slot or
the nine with the carry, and are undone by as many in the other direction. -/
theorem extended_exact :
    (∀ o, ∃ s x, o = Extended.opcode s x) ∧ ∀ (m : Machine) (s : Slot), m.ExtendedLaws s := by
  refine ⟨Extended.exists_opcode, ?_⟩
  intro m s
  refine ⟨m.executeExtended_eq s, m.executeExtended_testBit s, ?_, m.flags_executeExtended_shift s,
    m.slot_repeat_rlc s, m.slot_repeat_rrc s, m.carried_repeat_rl s, m.carried_repeat_rr s,
    ?_, ?_, ?_, ?_, m.slot_repeat_swap s⟩
  · intro i on
    rw [executeExtended_setBit, flags_setSlot]
  · intro k
    apply UInt8.toBitVec_inj.mp
    rw [slot_repeat_rrc, slot_repeat_rlc, rotateRight_rotateLeft]
  · intro k
    apply UInt8.toBitVec_inj.mp
    rw [slot_repeat_rlc, slot_repeat_rrc, rotateLeft_rotateRight]
  · intro k n
    apply of_carried_eq
    rw [carried_repeat_rr, carried_repeat_rl, rotateRight_rotateLeft]
  · intro k n
    apply of_carried_eq
    rw [carried_repeat_rl, carried_repeat_rr, rotateLeft_rotateRight]

end Machine

end Sm83
