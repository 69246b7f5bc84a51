import Sm83.Proofs.Execution
import Sm83.Proofs.OpcodeTables
import Sm83.Proofs.StateUpdates

/-! The half carry and the negate flag are dead: operations compute them, and nothing but a push of
`af` ever looks at them. Machines that differ in these two flags alone keep differing in them alone
for as long as no such push is fetched, and that push carries the difference to two bits of one cell
(`liveEq_iterate`). How the half carry is computed can therefore change no other result. -/
namespace Sm83

/-! ## Flags and results without the dead flags -/

/-- The flags with the half carry and the negate flag cleared. -/
def Flags.clearDead (f : Flags) : Flags :=
  { f with halfCarry := false, negate := false }

private theorem Flags.eq_of_clearDead_eq {f g : Flags} (same : f.clearDead = g.clearDead) :
    g = { f with halfCarry := g.halfCarry, negate := g.negate } := by
  obtain ⟨zero, carry, -, -⟩ := Flags.mk.inj same
  rw [zero, carry]

/-- The packed byte holds the dead flags in bits 4 and 5. -/
private theorem Flags.bit_pack_congr (f : Flags) (halfCarry negate : Bool) (i : Fin 8) (low : i ≠ 4)
    (high : i ≠ 5) : { f with halfCarry, negate }.pack.bit i = f.pack.bit i := by
  obtain ⟨z, c, h, n⟩ := f
  revert z c h n halfCarry negate i
  decide

private theorem Condition.holds_clearDead (c : Condition) (f : Flags) :
    c.holds f.clearDead = c.holds f := by
  cases c <;> rfl

namespace Alu

/-- A result whose dead flags are cleared. -/
def Result.clearDead {α : Type} (r : Result α) : Result α where
  value := r.value
  flags := r.flags.clearDead

private theorem clearDead_apply (op : Op) (a v : Byte) (f : Flags) :
    (op.apply a v f.clearDead).clearDead = (op.apply a v f).clearDead := by
  cases op <;> rfl

end Alu

private theorem Shift.clearDead_apply (s : Shift) (v : Byte) (f : Flags) :
    (s.apply v f.clearDead).clearDead = (s.apply v f).clearDead := rfl

namespace Machine

/-- The machine with its dead flags cleared. -/
def clearDead (m : Machine) : Machine :=
  m.setFlags m.regs.flags.clearDead

/-- The second machine is the first one, except that its dead flags may be other ones. -/
def LiveEq (s t : Machine) : Prop :=
  ∃ halfCarry negate, t = s.setFlags { s.regs.flags with halfCarry, negate }

/-! ## Instructions -/

section Updates

variable (m : Machine)

private theorem flags_clearDead : m.clearDead.regs.flags = m.regs.flags.clearDead := rfl

private theorem slot_clearDead (s : Slot) : m.clearDead.slot s = m.slot s := by
  cases s <;> rfl

private theorem source_clearDead (s : Source) : m.clearDead.source s = m.source s := by
  cases s with
  | slot s => exact m.slot_clearDead s
  | immediate => rfl

private theorem pastSource_clearDead (s : Source) :
    m.clearDead.pastSource s = (m.pastSource s).clearDead := by
  cases s <;> rfl

private theorem clearDead_setSlot (s : Slot) (v : Byte) :
    (m.setSlot s v).clearDead = m.clearDead.setSlot s v := by
  cases s <;> rfl

private theorem clearDead_store (s : Slot) (r : Alu.Result Byte) :
    (m.store s r).clearDead = m.store s r.clearDead :=
  clearDead_setSlot (m.setFlags r.flags) s r.value

private theorem store_clearDead (s : Slot) (r : Alu.Result Byte) :
    m.clearDead.store s r = m.store s r := rfl

private theorem clearDead_executeExtended (o : Byte) :
    (m.clearDead.executeExtended o).clearDead = (m.executeExtended o).clearDead := by
  simp only [executeExtended, slot_clearDead]
  cases Extended.decode o with
  | shift f =>
    simp only [clearDead_store, store_clearDead]
    exact congrArg (m.store (.ofOpcode o))
      (f.clearDead_apply (m.slot (.ofOpcode o)) m.regs.flags)
  | testBit i => rfl
  | setBit i on =>
    simp only [clearDead_setSlot]
    rfl

/-- No instruction but the push of `af` reads a dead flag. -/
theorem clearDead_execute (i : Instruction) (other : i ≠ .push .af) :
    (m.clearDead.execute i).clearDead = (m.execute i).clearDead := by
  cases i with
  | load t s =>
    simp only [execute, source_clearDead, pastSource_clearDead, clearDead_setSlot]
    rfl
  | alu op s =>
    simp only [execute, source_clearDead, pastSource_clearDead, clearDead_store, store_clearDead]
    -- both sides now store one result each, and these differ in dead flags alone
    exact congrArg ((m.pastSource s).store .a)
      (Alu.clearDead_apply op m.regs.a (m.source s) m.regs.flags)
  | increment s | decrement s =>
    simp only [execute, slot_clearDead, clearDead_store, store_clearDead]
    rfl
  | storeA a | loadA a => cases a <;> rfl
  | loadWord p | addHl p | incrementPair p | decrementPair p | pop p => cases p <;> rfl
  | jumpRelative c | jump c | call c =>
    by_cases taken : c.holds m.regs.flags <;>
      simp only [execute, flags_skip, flags_clearDead, Condition.holds_clearDead, taken] <;> rfl
  | ret c =>
    by_cases taken : c.holds m.regs.flags <;>
      simp only [execute, flags_clearDead, Condition.holds_clearDead, taken] <;>
      cases c.dropsInterrupts <;> rfl
  | push p =>
    cases p with
    | af => exact absurd rfl other
    | bc | de | hl => rfl
  | extended => exact m.clearDead_executeExtended m.opcode
  | _ => rfl

end Updates

end Machine

namespace Instruction

/-- Only one byte pushes `af`. -/
private theorem eq_of_decode_pushAf (o : Byte) : decode o = .push .af → o = 0xF5 := by
  apply Byte.forall_of_fields (p := fun o => decode o = .push .af → o = 0xF5)
  decide

end Instruction

/-! ## Steps -/

namespace Machine

private theorem clearDead_step {m : Machine} (other : m.opcode ≠ 0xF5) :
    m.clearDead.step.clearDead = m.step.clearDead := by
  have notPush : Instruction.decode m.opcode ≠ .push .af :=
    fun decoded => other (Instruction.eq_of_decode_pushAf m.opcode decoded)
  rw [step_eq, step_eq]
  exact congrArg (fun n : Machine => n.skip 1) (m.tick.clearDead_execute _ notPush)

private theorem liveEq_iff {s t : Machine} : s.LiveEq t ↔ s.clearDead = t.clearDead := by
  constructor
  · rintro ⟨halfCarry, negate, rfl⟩
    rfl
  · intro same
    have flags := Flags.eq_of_clearDead_eq (congrArg (fun m : Machine => m.regs.flags) same)
    refine ⟨t.regs.flags.halfCarry, t.regs.flags.negate, ?_⟩
    calc t = t.clearDead.setFlags t.regs.flags := rfl
      _ = s.clearDead.setFlags t.regs.flags := by rw [same]
      _ = s.setFlags t.regs.flags := rfl
      _ = s.setFlags { s.regs.flags with
            halfCarry := t.regs.flags.halfCarry, negate := t.regs.flags.negate } :=
          congrArg s.setFlags flags

private theorem step_of_pushAf {m : Machine} (fetched : m.opcode = 0xF5) :
    m.step = (m.tick.push m.regs.af).skip 1 := by
  rw [step_eq, fetched]
  rfl

private theorem sp_of_pushAf {m : Machine} (fetched : m.opcode = 0xF5) :
    m.step.regs.sp = m.regs.sp - 2 := by
  rw [step_of_pushAf fetched, sp_skip, sp_push]
  rfl

private theorem memory_of_pushAf {m : Machine} (fetched : m.opcode = 0xF5) :
    m.step.memory =
      (m.memory.set (m.regs.sp - 1) m.regs.a).set (m.regs.sp - 2) m.regs.flags.pack := by
  rw [step_of_pushAf fetched, memory_skip, memory_push, Registers.af, Word.high_ofBytes,
    Word.low_ofBytes]
  rfl

private theorem get_sp_of_pushAf {m : Machine} (fetched : m.opcode = 0xF5) :
    m.step.memory.get m.step.regs.sp = m.regs.flags.pack := by
  rw [memory_of_pushAf fetched, sp_of_pushAf fetched, Memory.get_set_self]

namespace LiveEq

variable {s t : Machine}

theorem fetch_eq (agree : s.LiveEq t) : s.fetch = t.fetch := by
  obtain ⟨halfCarry, negate, rfl⟩ := agree
  rfl

private theorem running_eq (agree : s.LiveEq t) : s.running = t.running := by
  obtain ⟨halfCarry, negate, rfl⟩ := agree
  rfl

theorem step (agree : s.LiveEq t) (other : s.opcode ≠ 0xF5) : s.step.LiveEq t.step := by
  have opcode : s.opcode = t.opcode := congrArg Fetch.opcode agree.fetch_eq
  rw [liveEq_iff] at agree ⊢
  rw [← clearDead_step other, agree, clearDead_step (opcode ▸ other)]

/-- The push of `af` leaves the dead flags in two bits of the cell on top of the stack. -/
theorem bit_pushAf (agree : s.LiveEq t) (fetched : s.opcode = 0xF5) (a : Word) (i : Fin 8)
    (differs : (s.step.memory.get a).bit i ≠ (t.step.memory.get a).bit i) :
    a = s.step.regs.sp ∧ (i = 4 ∨ i = 5) := by
  obtain ⟨halfCarry, negate, rfl⟩ := agree
  let flags : Flags := { s.regs.flags with halfCarry, negate }
  have pushed : (s.setFlags flags).step.memory =
      (s.memory.set (s.regs.sp - 1) s.regs.a).set (s.regs.sp - 2) flags.pack :=
    memory_of_pushAf fetched
  rw [memory_of_pushAf fetched, pushed] at differs
  rw [sp_of_pushAf fetched]
  by_cases top : s.regs.sp - 2 = a
  · subst top
    rw [Memory.get_set_self, Memory.get_set_self] at differs
    refine ⟨rfl, ?_⟩
    by_contra neither
    rw [not_or] at neither
    exact differs (s.regs.flags.bit_pack_congr halfCarry negate i neither.1 neither.2).symm
  · rw [Memory.get_set_of_ne _ _ top, Memory.get_set_of_ne _ _ top] at differs
    exact absurd rfl differs

private theorem others_pushAf (agree : s.LiveEq t) (fetched : s.opcode = 0xF5) :
    LiveEq { s.step with memory := t.step.memory } t.step := by
  have opcode : s.opcode = t.opcode := congrArg Fetch.opcode agree.fetch_eq
  rw [step_of_pushAf fetched, step_of_pushAf (opcode ▸ fetched)]
  obtain ⟨halfCarry, negate, rfl⟩ := agree
  exact ⟨halfCarry, negate, rfl⟩

/-- Agreement lasts as long as no push of `af` is fetched. -/
theorem iterate (agree : s.LiveEq t) {n : ℕ} (others : ∀ f ∈ s.fetches n, f.opcode ≠ 0xF5) :
    (Machine.step^[n] s).LiveEq (Machine.step^[n] t) := by
  induction n with
  | zero => exact agree
  | succ n ih =>
    rw [fetches_succ, List.forall_mem_append, List.forall_mem_singleton] at others
    rw [Function.iterate_succ_apply', Function.iterate_succ_apply']
    exact (ih others.1).step others.2

end LiveEq

/-- **The half carry and the negate flag are dead but for pushes of `af`.** Machines that agree but for
these flags agree so after any number of steps that fetches no such push; until then they fetch the
same and run alike. A step that does push `af` makes memory differ in two bits at most, both of the
byte that is then on top of the stack. -/
theorem liveEq_iterate (s t : Machine) (agree : s.LiveEq t) :
    (∀ n, (∀ f ∈ s.fetches n, f.opcode ≠ 0xF5) →
      (Machine.step^[n] s).LiveEq (Machine.step^[n] t) ∧
      s.fetches (n + 1) = t.fetches (n + 1) ∧
      ∀ k ≤ n, (Machine.step^[k] s).running = (Machine.step^[k] t).running) ∧
    (s.opcode = 0xF5 →
      LiveEq { s.step with memory := t.step.memory } t.step ∧
      ∀ a i, (s.step.memory.get a).bit i ≠ (t.step.memory.get a).bit i →
        a = s.step.regs.sp ∧ (i = 4 ∨ i = 5)) := by
  constructor
  · intro n others
    have upto (k : ℕ) (early : k ≤ n) : (Machine.step^[k] s).LiveEq (Machine.step^[k] t) :=
      agree.iterate fun f fetched => others f (s.fetches_subset early fetched)
    refine ⟨upto n le_rfl, ?_, fun k early => (upto k early).running_eq⟩
    apply List.map_congr_left
    intro k early
    exact (upto k (Nat.lt_succ_iff.mp (List.mem_range.mp early))).fetch_eq
  · intro fetched
    exact ⟨agree.others_pushAf fetched, agree.bit_pushAf fetched⟩

/-- A machine in front of an opcode that does nothing and a push of `af`, with both dead flags set. -/
def beforePush : Machine :=
  ofProgram ⟨#[0x00, 0xF5]⟩

private theorem opcode_beforePush : beforePush.opcode = 0x00 :=
  get_ofProgram _ 0 (by decide)

private theorem step_of_nop {m : Machine} (fetched : m.opcode = 0x00) : m.step = m.tick.skip 1 := by
  rw [step_eq, fetched]
  rfl

private theorem opcode_step_beforePush : beforePush.step.opcode = 0xF5 := by
  rw [step_of_nop opcode_beforePush]
  exact get_ofProgram _ 1 (by decide)

/-- Clearing the dead flags at the start shows in the byte that is pushed, and nowhere else. -/
theorem liveEq_iterate_beforePush :
    beforePush.LiveEq beforePush.clearDead ∧ (∀ f ∈ beforePush.fetches 1, f.opcode ≠ 0xF5) ∧
    beforePush.step.LiveEq beforePush.clearDead.step ∧ beforePush.step.opcode = 0xF5 ∧
    beforePush.step.step.memory.get beforePush.step.step.regs.sp = 0xB0 ∧
    beforePush.clearDead.step.step.memory.get beforePush.step.step.regs.sp = 0x80 ∧
    ∀ a ≠ beforePush.step.step.regs.sp,
      beforePush.step.step.memory.get a = beforePush.clearDead.step.step.memory.get a := by
  have agree : beforePush.LiveEq beforePush.clearDead := liveEq_iff.mpr rfl
  have others : ∀ f ∈ beforePush.fetches 1, f.opcode ≠ 0xF5 := by
    intro f fetched
    rw [fetches_succ, fetches_zero, List.nil_append, List.mem_singleton] at fetched
    rw [fetched]
    exact ne_of_eq_of_ne opcode_beforePush (by decide)
  have stepped : beforePush.step.LiveEq beforePush.clearDead.step :=
    ((liveEq_iterate _ _ agree).1 1 others).1
  have cleared : beforePush.clearDead.step = beforePush.clearDead.tick.skip 1 :=
    step_of_nop opcode_beforePush
  have opcode : beforePush.clearDead.step.opcode = 0xF5 :=
    (congrArg Fetch.opcode stepped.fetch_eq).symm.trans opcode_step_beforePush
  have sp : beforePush.step.step.regs.sp = beforePush.clearDead.step.step.regs.sp := by
    rw [sp_of_pushAf opcode_step_beforePush, sp_of_pushAf opcode, cleared,
      step_of_nop opcode_beforePush]
    rfl
  refine ⟨agree, others, stepped, opcode_step_beforePush, ?_, ?_, ?_⟩
  · rw [get_sp_of_pushAf opcode_step_beforePush, step_of_nop opcode_beforePush]
    decide
  · rw [sp, get_sp_of_pushAf opcode, cleared]
    decide
  · intro a other
    apply Byte.ext_bit
    intro i
    by_contra differs
    exact other (((liveEq_iterate _ _ stepped).2 opcode_step_beforePush).2 a i differs).1

end Machine

end Sm83
