import Sm83.Proofs.BootImage

/-! Loops that count a slot down to zero. The decrement stands in front of the jump back, so there is
a turn for every number on the way down, and 256 of them from zero. A turn is two steps, and apart from
the last one it leads back in front of the loop with one turn less to go (`step_step`). What all turns
together do follows from that by an induction on them (`countdown_induction`), and with it when a
program halts that counts down (`countdown_exact`). -/
namespace Sm83

/-! ## Code -/

/-- Bytes stand from an address on, one after the other. -/
def Stands (cell : Word → Byte) (a : Word) (code : List Byte) : Prop :=
  ∀ (i : ℕ) (inside : i < code.length), cell (a + .ofNat i) = code[i]

/-- The opcode that decrements a slot. -/
def decrementOpcode : Slot → Byte
  | .b => 0x05
  | .c => 0x0D
  | .d => 0x15
  | .e => 0x1D
  | .h => 0x25
  | .l => 0x2D
  | .atHl => 0x35
  | .a => 0x3D

/-- The opcode that loads a slot with the byte behind it. -/
def loadOpcode : Slot → Byte
  | .b => 0x06
  | .c => 0x0E
  | .d => 0x16
  | .e => 0x1E
  | .h => 0x26
  | .l => 0x2E
  | .atHl => 0x36
  | .a => 0x3E

private theorem decode_decrementOpcode (r : Slot) :
    Instruction.decode (decrementOpcode r) = .decrement r := by
  cases r <;> rfl

private theorem decode_loadOpcode (r : Slot) :
    Instruction.decode (loadOpcode r) = .load r .immediate := by
  cases r <;> rfl

/-- A decrement, and a jump back to it while there is something left. -/
def countdownLoop (r : Slot) : List Byte :=
  [decrementOpcode r, 0x20, 0xFD]

/-- Loads a slot, counts it down and stops. -/
def countdownProgram (r : Slot) (d : Byte) : List Byte :=
  [loadOpcode r, d] ++ (countdownLoop r ++ [0x10])

/-- How often the loop turns. A byte of zero is decremented to 255 first. -/
def turns (v : Byte) : ℕ :=
  if v = 0 then 256 else v.toNat

private theorem turns_le (v : Byte) : turns v ≤ 256 := by
  have bound := v.toNat_lt
  rw [turns]
  split <;> omega

private theorem turns_one : turns 1 = 1 := rfl

private theorem turns_eq_pred_add_one {v : Byte} (more : v ≠ 1) : turns v = turns (v - 1) + 1 := by
  revert more
  apply Byte.forall_of_fields (p := fun v => v ≠ 1 → turns v = turns (v - 1) + 1)
  decide

namespace Machine

variable {m : Machine} {r : Slot} {code first rest : List Byte}

/-! ## Slots and latches -/

private theorem slot_addCount (m : Machine) (r : Slot) (c : UInt64) :
    (m.addCount c).slot r = m.slot r := by
  cases r <;> rfl

private theorem store_addCount (m : Machine) (r : Slot) (x : Alu.Result Byte) (c : UInt64) :
    (m.addCount c).store r x = (m.store r x).addCount c := by
  cases r <;> rfl

private theorem addCount_addCount (m : Machine) (c d : UInt64) :
    (m.addCount c).addCount d = m.addCount (c + d) := by
  simp only [addCount, UInt64.add_assoc]

private theorem running_store (m : Machine) (r : Slot) (x : Alu.Result Byte) :
    (m.store r x).running = m.running :=
  congrArg Latches.running (m.latches_store r x)

/-! ## In front of code -/

/-- The machine is about to execute code that writing to a slot does not change. -/
structure Facing (m : Machine) (r : Slot) (code : List Byte) : Prop where
  stands : Stands m.memory.get m.regs.pc code
  outside : r = .atHl → ∀ i < code.length, m.regs.hl ≠ m.regs.pc + .ofNat i

namespace Facing

theorem opcode {o : Byte} (facing : Facing m r (o :: rest)) : m.opcode = o := by
  have cell : m.memory.get (m.regs.pc + 0) = o := facing.stands 0 (Nat.zero_lt_succ _)
  rw [UInt16.add_zero] at cell
  exact cell

theorem operandByte {o v : Byte} (facing : Facing m r (o :: v :: rest)) : m.operandByte = v :=
  facing.stands 1 (by simp)

theorem front (facing : Facing m r (first ++ rest)) : Facing m r first where
  stands i inside := by
    have within : i < (first ++ rest).length := by
      rw [List.length_append]
      omega
    rw [facing.stands i within, List.getElem_append_left inside]
  outside atHl i inside := by
    apply facing.outside atHl i
    rw [List.length_append]
    omega

theorem skip (first : List Byte) (facing : Facing m r (first ++ rest)) :
    Facing (m.skip (.ofNat first.length)) r rest where
  stands i inside := by
    have within : first.length + i < (first ++ rest).length := by
      rw [List.length_append]
      omega
    have cell := facing.stands (first.length + i) within
    rw [List.getElem_append_right (by omega)] at cell
    simp only [Nat.add_sub_cancel_left, UInt16.ofNat_add, ← UInt16.add_assoc] at cell
    exact cell
  outside atHl i inside := by
    have apart := facing.outside atHl (first.length + i) (by rw [List.length_append]; omega)
    rw [UInt16.ofNat_add, ← UInt16.add_assoc] at apart
    exact apart

theorem store (facing : Facing m r code) (x : Alu.Result Byte) : Facing (m.store r x) r code where
  stands i inside := by
    rw [memory_store, pc_store]
    split
    · next atHl =>
      rw [Memory.get_set_of_ne _ _ (facing.outside atHl i inside)]
      exact facing.stands i inside
    · exact facing.stands i inside
  outside atHl i inside := by
    subst atHl
    exact facing.outside rfl i inside

theorem addCount (facing : Facing m r code) (c : UInt64) : Facing (m.addCount c) r code :=
  ⟨facing.stands, facing.outside⟩

end Facing

/-! ## The loop -/

private theorem step_of_decode {i : Instruction} (decoded : Instruction.decode m.opcode = i) :
    m.step = (m.tick.execute i).skip 1 := by
  rw [step_eq, decoded]

private theorem step_decrement (decoded : Instruction.decode m.opcode = .decrement r) :
    m.step = ((m.store r (Alu.decrement (m.slot r) m.regs.flags)).skip 1).addCount 1 := by
  rw [step_of_decode decoded]
  cases r <;> rfl

private theorem step_load (decoded : Instruction.decode m.opcode = .load r .immediate) :
    m.step = ((m.store r ⟨m.operandByte, m.regs.flags⟩).skip 2).addCount 1 := by
  have past : m.step = (((m.store r ⟨m.operandByte, m.regs.flags⟩).skip 1).skip 1).addCount 1 := by
    rw [step_of_decode decoded]
    cases r <;> rfl
  rw [past, skip_skip]
  rfl

/-- A short jump moves the program counter and nothing else. -/
private theorem execute_jumpRelative (m : Machine) (c : Condition) :
    m.execute (.jumpRelative c) =
      m.skip (if c.holds m.regs.flags then 1 + Word.signExtend m.operandByte else 1) := by
  have displaced : (m.regs.pc + 1).displace m.operandByte =
      m.regs.pc + (1 + Word.signExtend m.operandByte) := UInt16.add_assoc _ _ _
  by_cases taken : c.holds m.regs.flags
  · rw [if_pos taken, skip, ← displaced]
    exact if_pos taken
  · rw [if_neg taken]
    exact if_neg taken

/-- The jump back leads to the byte in front of it. -/
theorem step_jumpBack (opcode : m.opcode = 0x20) (back : m.operandByte = 0xFD) :
    m.step = (m.skip (if m.regs.flags.zero then 2 else -1)).addCount 1 := by
  have decoded : Instruction.decode m.opcode = .jumpRelative .notZero := by rw [opcode]; rfl
  have ticked : m.tick.operandByte = 0xFD := back
  have distance : ∀ zero : Bool,
      (if (!zero) = true then 1 + Word.signExtend 0xFD else 1) + 1 = if zero then 2 else -1 := by
    decide
  rw [step_of_decode decoded, execute_jumpRelative, skip_skip, ticked]
  exact congrArg m.tick.skip (distance m.regs.flags.zero)

private theorem zero_decrement (v : Byte) (f : Flags) :
    (Alu.decrement v f).flags.zero = decide (v = 1) := by
  have bytes : ∀ v : Byte, (v - 1 == 0) = decide (v = 1) := by
    apply Byte.forall_of_fields
    decide
  exact bytes v

theorem Facing.decode (facing : Facing m r (countdownLoop r)) :
    Instruction.decode m.opcode = .decrement r := by
  rw [facing.opcode, decode_decrementOpcode]

/-- A turn takes two steps, and leads back to the decrement unless it was the last one. -/
theorem step_step (facing : Facing m r (countdownLoop r)) :
    step^[2] m = ((m.store r (Alu.decrement (m.slot r) m.regs.flags)).skip
      (if m.slot r = 1 then 3 else 0)).addCount 2 := by
  have jump : Facing ((m.store r (Alu.decrement (m.slot r) m.regs.flags)).skip 1) r [0x20, 0xFD] :=
    (facing.store _).skip [decrementOpcode r]
  have distance : (1 + if decide (m.slot r = 1) = true then 2 else -1 : Word) =
      if m.slot r = 1 then 3 else 0 := by
    by_cases last : m.slot r = 1 <;> simp only [last, decide_true, decide_false, if_true] <;> decide
  rw [Function.iterate_succ_apply, Function.iterate_one, step_decrement facing.decode, step_addCount,
    step_jumpBack jump.opcode jump.operandByte, flags_skip, flags_store, zero_decrement, skip_skip,
    distance, addCount_addCount]
  rfl

private theorem step_step_of_ne (facing : Facing m r (countdownLoop r)) (more : m.slot r ≠ 1) :
    step^[2] m = (m.store r (Alu.decrement (m.slot r) m.regs.flags)).addCount 2 := by
  rw [step_step facing, if_neg more, skip_zero]

private theorem slot_step_step (facing : Facing m r (countdownLoop r)) (more : m.slot r ≠ 1) :
    (step^[2] m).slot r = m.slot r - 1 := by
  rw [step_step_of_ne facing more, slot_addCount, slot_store]
  rfl

private theorem Facing.step_step (facing : Facing m r (countdownLoop r)) (more : m.slot r ≠ 1) :
    Facing (step^[2] m) r (countdownLoop r) := by
  rw [step_step_of_ne facing more]
  exact (facing.store _).addCount 2

/-- The number of steps that all turns take together. -/
theorem turns_step_step (facing : Facing m r (countdownLoop r)) (more : m.slot r ≠ 1) :
    2 * turns (m.slot r) = 2 * turns ((step^[2] m).slot r) + 2 := by
  rw [slot_step_step facing more, turns_eq_pred_add_one more, Nat.mul_succ]

/-- Whatever holds of a machine on its last turn, and of a machine if it does so one turn later, holds
of every machine in front of the loop. -/
theorem countdown_induction {p : Machine → Prop}
    (last : ∀ m, Facing m r (countdownLoop r) → m.slot r = 1 → p m)
    (again : ∀ m, Facing m r (countdownLoop r) → m.slot r ≠ 1 → p (step^[2] m) → p m)
    (facing : Facing m r (countdownLoop r)) : p m := by
  induction n : turns (m.slot r) using Nat.strong_induction_on generalizing m with
  | h n ih =>
    by_cases one : m.slot r = 1
    · exact last m facing one
    · have fewer := turns_step_step facing one
      exact again m facing one (ih _ (by omega) (facing.step_step one) rfl)

/-- The machine once a slot has been counted down, still in front of the loop. -/
def countedDown (m : Machine) (r : Slot) : Machine :=
  m.store r ⟨0, { m.regs.flags with zero := true, halfCarry := false, negate := true }⟩

/-- A turn writes nothing that the turns behind it do not write again. -/
theorem countedDown_step_step (facing : Facing m r (countdownLoop r)) (more : m.slot r ≠ 1) :
    (step^[2] m).countedDown r = (m.countedDown r).addCount 2 := by
  have flags : (step^[2] m).regs.flags = (Alu.decrement (m.slot r) m.regs.flags).flags := by
    rw [step_step_of_ne facing more]
    exact flags_store m r _
  rw [countedDown, flags, step_step_of_ne facing more, store_addCount, store_store]
  rfl

/-- All turns together leave the slot at zero, with the flags of the last decrement. -/
theorem iterate_turns (facing : Facing m r (countdownLoop r)) :
    step^[2 * turns (m.slot r)] m =
      ((m.countedDown r).skip 3).addCount (.ofNat (2 * turns (m.slot r))) := by
  refine countdown_induction (p := fun m => step^[2 * turns (m.slot r)] m =
    ((m.countedDown r).skip 3).addCount (.ofNat (2 * turns (m.slot r)))) ?last ?again facing
  case last =>
    intro m facing one
    rw [one, turns_one, step_step facing, one]
    rfl
  case again =>
    intro m facing more rest
    rw [turns_step_step facing more, Function.iterate_add_apply, rest,
      countedDown_step_step facing more, UInt64.ofNat_add, UInt64.add_comm]
    exact addCount_addCount ((m.countedDown r).skip 3) 2 _

private theorem pc_step_facing (facing : Facing m r (countdownLoop r)) :
    m.step.regs.pc = m.regs.pc + 1 := by
  rw [step_decrement facing.decode]
  exact congrArg (· + 1) (m.pc_store r _)

/-- Up to there the loop is not left. -/
theorem pc_iterate_turns (facing : Facing m r (countdownLoop r)) :
    ∀ j < 2 * turns (m.slot r),
      (step^[j] m).regs.pc = m.regs.pc ∨ (step^[j] m).regs.pc = m.regs.pc + 1 := by
  refine countdown_induction (p := fun m => ∀ j < 2 * turns (m.slot r),
    (step^[j] m).regs.pc = m.regs.pc ∨ (step^[j] m).regs.pc = m.regs.pc + 1) ?last ?again facing
  case last =>
    intro m facing one j before
    match j with
    | 0 => exact .inl rfl
    | 1 => exact .inr (pc_step_facing facing)
    | j + 2 => simp [one, turns_one] at before
  case again =>
    intro m facing more rest j before
    match j with
    | 0 => exact .inl rfl
    | 1 => exact .inr (pc_step_facing facing)
    | j + 2 =>
      have back : (step^[2] m).regs.pc = m.regs.pc := by
        rw [step_step_of_ne facing more]
        exact m.pc_store r _
      rw [turns_step_step facing more] at before
      rw [Function.iterate_add_apply, ← back]
      exact rest j (by omega)

/-! ## The program -/

/-- Behind the loop the machine goes on with what stands there. -/
theorem Facing.iterate_turns (facing : Facing m r (countdownLoop r ++ rest)) :
    Facing (step^[2 * turns (m.slot r)] m) r rest := by
  rw [Machine.iterate_turns facing.front]
  exact ((facing.store _).skip (countdownLoop r)).addCount _

private theorem running_iterate_turns (facing : Facing m r (countdownLoop r))
    (running : m.running = true) : (step^[2 * turns (m.slot r)] m).running = true := by
  rw [Machine.iterate_turns facing]
  exact (m.running_store r _).trans running

/-- The program halts on its stop: one step behind the load and all turns. -/
theorem haltingTime_countdownProgram {d : Byte} (facing : Facing m r (countdownProgram r d))
    (running : m.running = true) : m.haltingTime = (2 * turns d + 2 : ℕ) := by
  have decoded : Instruction.decode m.opcode = .load r .immediate := by
    rw [facing.opcode, decode_loadOpcode]
  have loaded := step_load decoded
  rw [facing.operandByte] at loaded
  have loop : Facing m.step r (countdownLoop r ++ [0x10]) := by
    rw [loaded]
    exact ((facing.store _).skip [loadOpcode r, d]).addCount 1
  have slot : m.step.slot r = d := by
    rw [loaded, slot_addCount, slot_skip, slot_store]
  have runs : m.step.running = true := by
    rw [loaded]
    exact (m.running_store r _).trans running
  have stop := loop.iterate_turns.opcode
  have late := running_iterate_turns loop.front runs
  rw [slot] at stop late
  have halted : (step^[2 * turns d] m.step).step.running = false := by
    rw [running_step, stop]
    rfl
  refine haltingTime_eq_coe_iff.mpr ⟨?_, ?_⟩
  · rw [Function.iterate_succ_apply, Function.iterate_succ_apply']
    exact halted
  · intro n before
    exact running_iterate_of_le (Nat.le_of_lt_succ before) late

private theorem toNat_place {i : ℕ} (inside : i < 0x4D) :
    (0x0100 + .ofNat i : Word).toNat = 0x0100 + i := by
  rw [UInt16.toNat_add, UInt16.toNat_ofNat']
  simp only [UInt16.reduceToNat]
  omega

/-- Booting leaves the code alone that it goes on with, and points `hl` behind it. -/
theorem facing_ofImage {image : ByteArray} (stands : Stands (imageByte image) 0x0100 code)
    (short : code.length ≤ 0x4D) : Facing (ofImage image) r code where
  stands i inside := by
    have place := toNat_place (lt_of_lt_of_le inside short)
    have high : bootAddresses.all (0xFF00 ≤ ·.toNat) = true := by decide
    have unwritten : (0x0100 + .ofNat i : Word) ∉ bootAddresses := by
      intro member
      have far := of_decide_eq_true (List.all_eq_true.mp high _ member)
      omega
    have cell := (bootedOver_ofImage image).get_others _ unwritten
    exact cell.trans (stands i inside)
  outside _ i inside := by
    have apart : ∀ i < 0x4D, Registers.boot.hl ≠ 0x0100 + .ofNat i := by decide
    exact apart i (lt_of_lt_of_le inside short)

end Machine

/-- The image of code that a booted machine goes on with. -/
def bootImage (code : List Byte) : ByteArray :=
  bootPage ++ ⟨code.toArray⟩

private theorem stands_bootImage {code : List Byte} (short : code.length ≤ 0x4D) :
    Stands (imageByte (bootImage code)) 0x0100 code := by
  intro i inside
  have size : bootPage.data.size = 0x0100 := size_bootPage
  have cell : (bootImage code).data[0x0100 + i]?.getD 0 = code[i] := by
    rw [bootImage, ByteArray.data_append, Array.getElem?_append_right (by omega), size,
      Nat.add_sub_cancel_left, List.getElem?_toArray, List.getElem?_eq_getElem inside,
      Option.getD_some]
  rw [imageByte, Machine.toNat_place (lt_of_lt_of_le inside short)]
  exact cell

/-- **A countdown takes two steps for each turn, and 256 turns from zero.** Until then the next opcode
is the decrement or the jump back. Behind the last turn the machine is as it was in front of the loop,
apart from the slot, which is zero, the flags other than the carry, which are those of the last
decrement, the program counter, which is behind the loop, and the count. So a program at the address
that booting leads to, which loads a slot, counts it down and stops, halts two steps later than the
turns take, on every budget that is large enough. -/
theorem countdown_exact :
    (∀ (m : Machine) (r : Slot), m.Facing r (countdownLoop r) →
      let k := 2 * turns (m.slot r)
      (∀ j < k, (Machine.step^[j] m).regs.pc = m.regs.pc ∨
        (Machine.step^[j] m).regs.pc = m.regs.pc + 1) ∧
      Machine.step^[k] m = ((m.countedDown r).skip 3).addCount (.ofNat k) ∧
      (Machine.step^[k] m).slot r = 0) ∧
    ∀ (image : ByteArray) (r : Slot) (d : Byte),
      Stands (imageByte image) 0x0100 (countdownProgram r d) →
      ∀ s : Session, s.machine = .ofImage image →
      ∀ budget : Option ℕ, (∀ b ∈ budget, 2 * turns d + 2 ≤ b) →
        (s.run budget).map (·.outcome) = some ⟨2 * turns d + 2, .halted⟩ := by
  constructor
  · intro m r facing
    have behind := Machine.iterate_turns facing
    refine ⟨Machine.pc_iterate_turns facing, behind, ?_⟩
    rw [behind, Machine.slot_addCount, Machine.slot_skip]
    exact m.slot_store r _
  · intro image r d stands s fresh budget enough
    have time : s.machine.haltingTime = (2 * turns d + 2 : ℕ) := by
      rw [fresh]
      exact Machine.haltingTime_countdownProgram
        (Machine.facing_ofImage stands (by simp [countdownProgram, countdownLoop])) rfl
    have ran : s.run budget = some (s.endedAfter (2 * turns d + 2)) := by
      cases budget with
      | some b => exact congrArg some (Session.runFor_eq_of_haltingTime time (enough b rfl))
      | none =>
        have few := turns_le d
        exact Session.run_none_eq time (by omega)
    rw [ran, Option.map_some, Session.outcome_endedAfter_of_haltingTime time]

/-- Booting leaves `b` at zero, from where it takes 256 turns. -/
theorem countdown_exact_afterBoot :
    (Machine.ofImage (bootImage (countdownLoop .b))).Facing .b (countdownLoop .b) ∧
    (Machine.step^[512] (.ofImage (bootImage (countdownLoop .b)))).regs.pc = 0x0103 ∧
    Stands (imageByte (bootImage (countdownProgram .a 5))) 0x0100 (countdownProgram .a 5) ∧
    (Session.run (some 12) { machine := .ofImage (bootImage (countdownProgram .a 5)) }).map
      (·.outcome) = some ⟨12, .halted⟩ := by
  obtain ⟨loops, programs⟩ := countdown_exact
  have facing : (Machine.ofImage (bootImage (countdownLoop .b))).Facing .b (countdownLoop .b) :=
    Machine.facing_ofImage (stands_bootImage (by decide)) (by decide)
  have stands : Stands (imageByte (bootImage (countdownProgram .a 5))) 0x0100
      (countdownProgram .a 5) := stands_bootImage (by decide)
  have most : 2 * turns ((Machine.ofImage (bootImage (countdownLoop .b))).slot .b) = 512 := rfl
  have behind := (loops _ .b facing).2.1
  rw [most] at behind
  have enough : ∀ b ∈ some 12, 2 * turns 5 + 2 ≤ b := by
    intro b given
    cases given
    decide
  refine ⟨facing, ?_, stands, programs _ .a 5 stands _ rfl (some 12) enough⟩
  rw [behind]
  rfl

end Sm83
