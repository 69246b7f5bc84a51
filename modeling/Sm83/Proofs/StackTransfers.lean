import Mathlib.Data.Set.Insert
import Sm83.Proofs.RegisterWrites
import Sm83.Proofs.StackDiscipline

/-! Words in memory and on the stack. A word is stored low byte first and pushed high byte first, but in
the same two cells, so a push is a store below the stack pointer and a pop a load from it, also where the
two cells lie at opposite ends of memory (`push_eq_writeWord`). A push of one pair and a pop into another
therefore move the word over, and change nothing else but these two cells (`stack_transfers_exact`). -/
namespace Sm83

/-! ## Words in memory -/

namespace Memory

variable (m : Memory) (a w : Word)

/-- The cells in which another memory differs. -/
def changes (m n : Memory) : Set Word :=
  {a | n.get a ≠ m.get a}

private theorem getWord_setWord : (m.setWord a w).getWord a = w := by
  have apart : a + 1 ≠ a := by grind
  rw [getWord, setWord, get_set_self, get_set_of_ne _ _ apart, get_set_self, Word.ofBytes_high_low]

private theorem changes_setWord : m.changes (m.setWord a w) ⊆ {a, a + 1} := by
  intro b changed
  by_contra outside
  obtain ⟨first, second⟩ := not_or.mp outside
  have kept : (m.setWord a w).get b = m.get b := by
    rw [setWord, get_set_of_ne _ _ (Ne.symm second), get_set_of_ne _ _ (Ne.symm first)]
  exact changed kept

end Memory

/-- To put back the word that a pair holds changes nothing, the flags included. -/
theorem Registers.setStackPair_stackPair (r : Registers) (p : StackPair) :
    r.setStackPair p (r.stackPair p) = r := by
  cases p <;>
    simp [stackPair, setStackPair, bc, de, hl, af, setBc, setDe, setHl, setAf]

namespace Machine

variable (m : Machine)

/-! ## Words on the stack -/

/-- The two cells of a word below the stack pointer are written from the top down, and might as well be
written from the bottom up. -/
theorem push_eq_writeWord (w : Word) :
    m.push w = (m.setPair .sp (m.regs.sp - 2)).writeWord (m.regs.sp - 2) w := by
  apply ext_parts
  · exact congrArg (fun sp => { m.regs with sp }) m.regs.sp.sub_one_sub_one
  · rw [memory_push, memory_writeWord, memory_setPair, Word.sub_two_add_one,
      Memory.set_comm _ _ _ m.regs.sp.sub_one_ne_sub_two]
  · rfl

private theorem drop_eq_setPair : m.drop = m.setPair .sp (m.regs.sp + 2) :=
  congrArg (fun sp => { m with regs.sp := sp }) m.regs.sp.add_one_add_one

private theorem changes_push (w : Word) :
    m.memory.changes (m.push w).memory ⊆ {m.regs.sp - 2, m.regs.sp - 1} := by
  rw [push_eq_writeWord, ← Word.sub_two_add_one]
  exact m.memory.changes_setWord (m.regs.sp - 2) w

/-! ## From pair to pair -/

/-- The machine after a push of one pair and a pop into another. -/
def movePair (q p : StackPair) : Machine :=
  (m.execute (.push q)).execute (.pop p)

/-- The pop finds the word that was pushed, and the stack pointer where it was before. -/
theorem movePair_eq (q p : StackPair) :
    m.movePair q p =
      { (m.push (m.regs.stackPair q)).drop with
        regs := m.regs.setStackPair p (m.regs.stackPair q) } := by
  let pushed := m.push (m.regs.stackPair q)
  calc m.movePair q p
      = { pushed.drop with regs := pushed.drop.regs.setStackPair p pushed.top } := rfl
    _ = { pushed.drop with regs := m.regs.setStackPair p (m.regs.stackPair q) } := by
      rw [regs_drop_push, top_push]

private theorem flags_setStackPair {p : StackPair} (other : p ≠ .af) (r : Registers) (w : Word) :
    (r.setStackPair p w).flags = r.flags := by
  cases p with
  | af => exact absurd rfl other
  | _ => rfl

/-- What is left behind by a push of one pair and a pop into another. -/
structure MovesPair (m : Machine) (q p : StackPair) (n : Machine) : Prop where
  /-- The word arrives, except that flags have no room for the low four bits. -/
  word : n.regs.stackPair p =
    if p = .af then .ofBytes (m.regs.stackPair q).high ((m.regs.stackPair q).low &&& 0xF0)
    else m.regs.stackPair q
  bytes : ∀ x ∉ p.registers, n.regs.byte x = m.regs.byte x
  flags : p ≠ .af → n.regs.flags = m.regs.flags
  sp : n.regs.sp = m.regs.sp
  pc : n.regs.pc = m.regs.pc
  latches : n.latches = m.latches
  cells : m.memory.changes n.memory ⊆ {m.regs.sp - 2, m.regs.sp - 1}
  /-- A pair that is popped where it was pushed is as before, all four flags included. -/
  back : q = p → n.regs = m.regs

private theorem movesPair (q p : StackPair) : m.MovesPair q p (m.movePair q p) := by
  let n := (m.push (m.regs.stackPair q)).drop
  have latches : n.latches = m.latches := by rw [latches_drop, latches_push]
  rw [movePair_eq]
  constructor
  case word => exact m.regs.stackPair_setStackPair p _
  case bytes =>
    intro x other
    exact byte_setStackPair_of_notMem other m.regs _
  case flags =>
    intro other
    exact flags_setStackPair other m.regs _
  case sp => exact sp_setStackPair m.regs p _
  case pc => exact pc_setStackPair m.regs p _
  case latches => exact latches
  case cells => exact m.changes_push _
  case back =>
    rintro rfl
    exact m.regs.setStackPair_stackPair q

/-- **The stack transfers words between memory and the pairs.** A word that is written is read again, at
every address, the last one included. A push is a write below the stack pointer and a pop a read from
it. One after the other they move a word from any pair to any pair, and change nothing else but the two
cells below the stack pointer. -/
theorem stack_transfers_exact (m : Machine) :
    (∀ a w, (m.writeWord a w).memory.getWord a = w ∧
      m.memory.changes (m.writeWord a w).memory ⊆ {a, a + 1} ∧
      (m.writeWord a w).regs = m.regs ∧ (m.writeWord a w).latches = m.latches) ∧
    (∀ w, let n := m.setPair .sp (m.regs.sp - 2)
      m.push w = n.writeWord n.regs.sp w) ∧
    m.top = m.memory.getWord m.regs.sp ∧ m.drop = m.setPair .sp (m.regs.sp + 2) ∧
    ∀ q p, m.MovesPair q p ((m.execute (.push q)).execute (.pop p)) := by
  refine ⟨?_, m.push_eq_writeWord, rfl, m.drop_eq_setPair, m.movesPair⟩
  intro a w
  exact ⟨m.memory.getWord_setWord a w, m.memory.changes_setWord a w, rfl, rfl⟩

/-- The two cells below the stack pointer are the first and the last one of memory. -/
theorem stack_transfers_exact_atBottom :
    StackPair.bc ≠ .af ∧ Register.a ∉ StackPair.bc.registers ∧
    (atBottom.movePair .af .bc).regs.stackPair .bc = 0x01B0 ∧
    (atBottom.movePair .af .bc).regs.a = 0x01 ∧
    (atBottom.movePair .af .bc).regs.flags = atBottom.regs.flags ∧
    atBottom.memory.changes (atBottom.movePair .af .bc).memory ⊆ {0xFFFF, 0x0000} ∧
    (atBottom.movePair .af .af).regs = atBottom.regs := by
  obtain ⟨-, -, -, -, moved⟩ := stack_transfers_exact atBottom
  have other : StackPair.bc ≠ .af := by decide
  have outside : Register.a ∉ StackPair.bc.registers := by decide
  have word : (atBottom.movePair .af .bc).regs.stackPair .bc = 0x01B0 := (moved .af .bc).word
  exact ⟨other, outside, word, (moved .af .bc).bytes .a outside, (moved .af .bc).flags other,
    (moved .af .bc).cells, (moved .af .af).back rfl⟩

end Machine

end Sm83
