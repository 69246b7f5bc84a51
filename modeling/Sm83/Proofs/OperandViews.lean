import Sm83.Proofs.Execution
import Sm83.Proofs.ExtendedOperations

/-! Slots and pairs are views of the registers and of the cell that `hl` points at. Each of them reads
back what was written to it. Two slots do not touch each other unless one of them is the cell and the
other a half of `hl`, which moves it; there are machines on which it then makes a difference
(`forall_slot_setSlot_iff`, `forall_setSlot_comm_iff`). The laws of the slots carry over to the copies
between them and to the pairs that are made of them (`operands_lawful`). -/
namespace Sm83

/-- The slots of the high and of the low byte of a pair. The stack pointer has none. -/
def Pair.halves? : Pair → Option (Slot × Slot)
  | .bc => some (.b, .c)
  | .de => some (.d, .e)
  | .hl => some (.h, .l)
  | .sp => none

/-- The slots of the high and of the low byte of a pair that is pushed. The flags have none. -/
def StackPair.halves? : StackPair → Option (Slot × Slot)
  | .bc => some (.b, .c)
  | .de => some (.d, .e)
  | .hl => some (.h, .l)
  | .af => none

/-! ## Copies -/

/-- The opcode that copies one slot into another. -/
def copyOpcode (t s : Slot) : Byte :=
  .ofNat (64 + t.number * 8 + s.number)

private theorem copyOpcode_eq (t s : Slot) : copyOpcode t s = .ofFields 1 t.number s.number := rfl

private theorem decode_copyOpcode (t s : Slot) :
    Instruction.decode (copyOpcode t s) = .load t (.slot s) := by
  simp only [copyOpcode_eq, Instruction.decode, Byte.top_ofFields, Byte.middle_ofFields,
    Byte.bottom_ofFields, Slot.ofField_number]

/-- The copies fill the second quarter of the table. -/
theorem exists_copyOpcode_iff {o : Byte} :
    (∃ t s, o = copyOpcode t s) ↔ 0x40 ≤ o ∧ o < 0x80 := by
  have quarter : o.top = 1 ↔ 0x40 ≤ o ∧ o < 0x80 := by
    apply Byte.forall_of_fields (p := fun o => o.top = 1 ↔ 0x40 ≤ o ∧ o < 0x80)
    decide
  rw [← quarter]
  constructor
  · rintro ⟨t, s, rfl⟩
    rw [copyOpcode_eq, Byte.top_ofFields]
  · intro second
    refine ⟨.ofField o.middle, .ofField o.bottom, ?_⟩
    rw [copyOpcode_eq, Slot.number_ofField, Slot.number_ofField, ← second,
      Byte.ofFields_top_middle_bottom]

namespace Machine

/-- Carries out the copy of one slot into another. -/
def copy (m : Machine) (t s : Slot) : Machine :=
  m.execute (.decode (copyOpcode t s))

private theorem copy_eq (m : Machine) (t s : Slot) : m.copy t s = m.setSlot t (m.slot s) := by
  rw [copy, decode_copyOpcode]
  rfl

/-! ## Slots that touch each other -/

/-- Memory begins with the byte 1, and `hl` points at it. All bytes around it are zeros. -/
def atFirstCell : Machine :=
  { ofProgram ⟨#[0x01]⟩ with regs.h := 0, regs.l := 0 }

private theorem slot_atFirstCell : atFirstCell.slot .atHl = 1 :=
  get_ofProgram _ 0 (by decide)

/-- To copy the cell into a half of `hl` moves on to a cell that holds another byte. -/
private theorem slot_copy_atFirstCell {t : Slot} (moves : t.movesHl = true) :
    (atFirstCell.setSlot t (atFirstCell.slot .atHl)).slot .atHl ≠ atFirstCell.slot .atHl := by
  rw [slot_atFirstCell]
  have empty : (atFirstCell.setSlot t 1).slot .atHl = 0 := by
    cases t with
    | h => exact get_ofProgram _ 0x0100 (by decide)
    | l => exact get_ofProgram _ 0x0001 (by decide)
    | _ => cases moves
  rw [empty]
  decide

variable {r s t : Slot}

/-- A write leaves a slot alone on every machine if and only if it is to another slot and does not move
the one that is read. -/
theorem forall_slot_setSlot_iff :
    (∀ (m : Machine) v, (m.setSlot s v).slot r = m.slot r) ↔
      r ≠ s ∧ (r = .atHl → s.movesHl = false) := by
  constructor
  · intro kept
    constructor
    · rintro rfl
      have next := kept atFirstCell (atFirstCell.slot r + 1)
      rw [slot_setSlot] at next
      grind
    · rintro rfl
      by_contra moves
      rw [Bool.not_eq_false] at moves
      exact slot_copy_atFirstCell moves (kept atFirstCell _)
  · rintro ⟨other, still⟩ m v
    exact m.slot_setSlot_of_ne other still v

/-- Of two writes that commute neither touches the slot of the other. -/
private theorem slot_setSlot_of_comm
    (comm : ∀ (m : Machine) v w, (m.setSlot r v).setSlot s w = (m.setSlot s w).setSlot r v)
    (m : Machine) (w : Byte) : (m.setSlot s w).slot r = m.slot r := by
  -- putting back what the slot holds changes nothing, before the other write or behind it
  calc (m.setSlot s w).slot r
      = ((m.setSlot r (m.slot r)).setSlot s w).slot r := by rw [setSlot_slot]
    _ = ((m.setSlot s w).setSlot r (m.slot r)).slot r := by rw [comm]
    _ = m.slot r := slot_setSlot _ r _

private theorem forall_setSlot_comm_iff :
    (∀ (m : Machine) v w, (m.setSlot r v).setSlot s w = (m.setSlot s w).setSlot r v) ↔
      r.Apart s := by
  constructor
  · intro comm
    obtain ⟨other, left⟩ := forall_slot_setSlot_iff.mp (slot_setSlot_of_comm comm)
    obtain ⟨-, right⟩ :=
      forall_slot_setSlot_iff.mp (slot_setSlot_of_comm fun m v w => (comm m w v).symm)
    exact ⟨other, left, right⟩
  · intro apart m v w
    exact m.setSlot_comm apart v w

/-- To copy a slot to itself changes nothing. -/
theorem copy_self (m : Machine) (s : Slot) : m.copy s s = m := by
  rw [copy_eq, setSlot_slot]

/-- To copy again changes nothing unless the copy moves the cell that it reads. -/
theorem forall_copy_copy_iff :
    (∀ m : Machine, (m.copy t s).copy t s = m.copy t s) ↔ (s = .atHl → t.movesHl = false) := by
  constructor
  · rintro again rfl
    by_contra moves
    rw [Bool.not_eq_false] at moves
    -- if nothing changes, then the cell read the second time holds what was copied the first time
    have same := congrArg (slot · t) (again atFirstCell)
    simp only [copy_eq, slot_setSlot] at same
    exact slot_copy_atFirstCell moves same
  · intro still m
    by_cases self : s = t
    · rw [self, copy_self, copy_self]
    · rw [copy_eq, copy_eq, slot_setSlot_of_ne m self still, setSlot_setSlot]

/-! ## The laws -/

/-- Puts a word into a pair that is pushed. -/
def setStackPair (m : Machine) (p : StackPair) (w : Word) : Machine :=
  { m with regs := m.regs.setStackPair p w }

/-- What holds of a slot, and of another one beside it. -/
structure SlotLaws (r s : Slot) : Prop where
  read : ∀ (m : Machine) v, (m.setSlot r v).slot r = v
  restore : ∀ m : Machine, m.setSlot r (m.slot r) = m
  overwrite : ∀ (m : Machine) v w, (m.setSlot r v).setSlot r w = m.setSlot r w
  /-- A write to another slot is not read, unless it moves the slot that is read. -/
  kept : (∀ (m : Machine) v, (m.setSlot s v).slot r = m.slot r) ↔
    r ≠ s ∧ (r = .atHl → s.movesHl = false)
  /-- Writes to different slots commute, unless one moves the other. -/
  comm : (∀ (m : Machine) v w, (m.setSlot r v).setSlot s w = (m.setSlot s w).setSlot r v) ↔
    r.Apart s

/-- What holds of the copy of one slot into another. -/
structure CopyLaws (t s : Slot) : Prop where
  read : ∀ m : Machine, (m.copy t s).slot t = m.slot s
  /-- To copy again changes nothing, unless the copy moves the slot that it reads. -/
  again : (∀ m : Machine, (m.copy t s).copy t s = m.copy t s) ↔ (s = .atHl → t.movesHl = false)
  self : t = s → ∀ m : Machine, m.copy t s = m

/-- What holds of a word that is put into a pair. -/
structure PairLaws (m : Machine) (w : Word) : Prop where
  pair : ∀ p, (m.setPair p w).regs.pair p = w
  stackPair : ∀ p, (m.setStackPair p w).regs.stackPair p =
    if p = .af then .ofBytes w.high (w.low &&& 0xF0) else w
  /-- The word's bytes are put into the slots that the pair is made of. -/
  halves : ∀ p : Pair, ∀ half ∈ p.halves?,
    m.setPair p w = (m.setSlot half.1 w.high).setSlot half.2 w.low
  stackHalves : ∀ p : StackPair, ∀ half ∈ p.halves?,
    m.setStackPair p w = (m.setSlot half.1 w.high).setSlot half.2 w.low

private theorem slotLaws (r s : Slot) : SlotLaws r s where
  read m := m.slot_setSlot r
  restore m := m.setSlot_slot r
  overwrite m := m.setSlot_setSlot r
  kept := forall_slot_setSlot_iff
  comm := forall_setSlot_comm_iff

private theorem copyLaws (t s : Slot) : CopyLaws t s where
  read m := by rw [copy_eq, slot_setSlot]
  again := forall_copy_copy_iff
  self := by
    rintro rfl m
    exact m.copy_self t

private theorem pairLaws (m : Machine) (w : Word) : PairLaws m w where
  pair p := m.regs.pair_setPair p w
  stackPair p := m.regs.stackPair_setStackPair p w
  halves p half made := by
    cases p <;> cases made <;> rfl
  stackHalves p half made := by
    cases p <;> cases made <;> rfl

/-- **Slots and pairs are lawful views of a machine.** They read back what was written to them. Writes to
two slots commute if and only if the slots differ and neither moves the other. So each of the 64 copies
delivers the byte that its source held, a second one changes nothing unless the first has moved the
source, and a copy from a slot to itself changes nothing at all. To put a word into a pair is to put its
two bytes into two slots. To send the flags through their packed byte changes nothing either. -/
theorem operands_lawful :
    (∀ r s, SlotLaws r s) ∧
    (∀ o : Byte, (∃ t s, o = copyOpcode t s) ↔ 0x40 ≤ o ∧ o < 0x80) ∧
    copyOpcode .atHl .atHl = 0x76 ∧ (∀ t s, CopyLaws t s) ∧
    (∀ m w, PairLaws m w) ∧ ∀ m : Machine, m.normalize = m := by
  exact ⟨slotLaws, fun _ => exists_copyOpcode_iff, rfl, copyLaws, pairLaws, normalize_eq⟩

theorem operands_lawful_atFirstCell :
    Slot.Apart .b .atHl ∧ (atFirstCell.setSlot .atHl 0x02).slot .b = 0x00 ∧
    (Slot.b, Slot.c) ∈ Pair.bc.halves? ∧
    atFirstCell.setPair .bc 0x1234 = (atFirstCell.setSlot .b 0x12).setSlot .c 0x34 ∧
    ¬ ∀ m : Machine, (m.copy .l .atHl).copy .l .atHl = m.copy .l .atHl := by
  obtain ⟨slots, -, -, copies, pairs, -⟩ := operands_lawful
  have apart : Slot.Apart .b .atHl := ⟨by decide, fun _ => rfl, fun _ => rfl⟩
  have kept := (slots .b .atHl).kept.mpr ⟨apart.ne, apart.left⟩
  refine ⟨apart, kept atFirstCell 0x02, rfl, (pairs atFirstCell 0x1234).halves .bc _ rfl, ?_⟩
  intro again
  exact absurd ((copies .l .atHl).again.mp again rfl) (by decide)

end Machine

end Sm83
