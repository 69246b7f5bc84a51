import Mathlib.Data.ENat.Lattice
import Mathlib.Logic.Function.Iterate
import Sm83.Machine.Boot
import Sm83.Machine.Execute

/-! Repeated steps: what they fetch, and after how many of them the machine has halted. A step never
asks whether the machine runs, so the sequence of steps goes on behind a halt; a run stops there. -/
namespace Sm83

/-- An opcode and the address it was fetched from. -/
structure Fetch where
  pc : Word
  opcode : Byte
deriving DecidableEq

namespace Machine

variable {m : Machine} {n k : ℕ}

/-! ## Fetches -/

/-- What the next step fetches. -/
def fetch (m : Machine) : Fetch where
  pc := m.regs.pc
  opcode := m.opcode

@[simp] theorem opcode_fetch (m : Machine) : m.fetch.opcode = m.opcode := rfl

/-- What the next `n` steps fetch, in order. -/
def fetches (m : Machine) (n : ℕ) : List Fetch :=
  (List.range n).map fun i => (step^[i] m).fetch

@[simp] theorem fetches_zero (m : Machine) : m.fetches 0 = [] := rfl

theorem fetches_succ (m : Machine) (n : ℕ) :
    m.fetches (n + 1) = m.fetches n ++ [(step^[n] m).fetch] := by
  rw [fetches, List.range_succ, List.map_append, List.map_singleton, fetches]

theorem forall_fetches_two {p : Fetch → Prop} (first : p m.fetch) (second : p m.step.fetch) :
    ∀ f ∈ m.fetches 2, p f := by
  rw [fetches_succ, fetches_succ, fetches_zero, List.nil_append, List.forall_mem_append,
    List.forall_mem_singleton, List.forall_mem_singleton]
  exact ⟨first, second⟩

theorem fetches_subset (m : Machine) (shorter : k ≤ n) : m.fetches k ⊆ m.fetches n :=
  List.map_subset _ (List.range_subset.mpr shorter)

/-! ## Halting -/

/-- The least number of steps behind which the machine does not run, infinite if there is none. -/
noncomputable def haltingTime (m : Machine) : ℕ∞ :=
  ⨅ (n : ℕ) (_ : (step^[n] m).running = false), (n : ℕ∞)

theorem haltingTime_le (halted : (step^[n] m).running = false) : m.haltingTime ≤ n :=
  iInf₂_le n halted

private theorem le_haltingTime {t : ℕ∞} (later : ∀ n, (step^[n] m).running = false → t ≤ n) :
    t ≤ m.haltingTime :=
  le_iInf₂ later

theorem running_of_lt_haltingTime (before : n < m.haltingTime) : (step^[n] m).running = true := by
  by_contra halted
  rw [Bool.not_eq_true] at halted
  exact not_lt.mpr (haltingTime_le halted) before

/-- The halting time is attained. -/
theorem halted_at_haltingTime (time : m.haltingTime = k) : (step^[k] m).running = false := by
  by_contra running
  have later : ((k + 1 : ℕ) : ℕ∞) ≤ m.haltingTime := by
    apply le_haltingTime
    intro n halted
    have reached : (k : ℕ∞) ≤ n := time ▸ haltingTime_le halted
    have different : k ≠ n := fun same => running (same ▸ halted)
    exact_mod_cast lt_of_le_of_ne (Nat.cast_le.mp reached) different
  rw [time] at later
  exact absurd (Nat.cast_le.mp later) (Nat.not_succ_le_self k)

/-- The halting time is the number of steps behind which the machine has halted for the first time. -/
theorem haltingTime_eq_coe_iff : m.haltingTime = k ↔
    (step^[k] m).running = false ∧ ∀ n < k, (step^[n] m).running = true := by
  constructor
  · intro time
    refine ⟨halted_at_haltingTime time, ?_⟩
    intro n before
    exact running_of_lt_haltingTime (time ▸ Nat.cast_lt.mpr before)
  · rintro ⟨halted, running⟩
    apply le_antisymm (haltingTime_le halted)
    apply le_haltingTime
    intro n stopped
    by_contra earlier
    have before : n < k := Nat.cast_lt.mp (not_le.mp earlier)
    exact absurd ((running n before).symm.trans stopped) (by decide)

theorem haltingTime_eq_zero (halted : m.running = false) : m.haltingTime = 0 :=
  nonpos_iff_eq_zero.mp (haltingTime_le (n := 0) halted)

/-- A machine that runs halts one step later than the machine it steps to. -/
theorem haltingTime_eq_step_add_one (running : m.running = true) :
    m.haltingTime = m.step.haltingTime + 1 := by
  apply le_antisymm
  · cases time : m.step.haltingTime with
    | top => exact le_top
    | coe k =>
      have halted : (step^[k] m.step).running = false := halted_at_haltingTime time
      exact_mod_cast haltingTime_le (m := m) (n := k + 1) halted
  · apply le_haltingTime
    intro n halted
    cases n with
    | zero => exact absurd (running.symm.trans halted) (by decide)
    | succ n =>
      have inner : m.step.haltingTime ≤ n := haltingTime_le halted
      exact_mod_cast add_le_add_left inner 1

/-- A machine that has not halted before halts as many steps later as it has taken already. -/
theorem haltingTime_eq_iterate_add (within : (n : ℕ∞) ≤ m.haltingTime) :
    m.haltingTime = (step^[n] m).haltingTime + n := by
  induction n generalizing m with
  | zero => exact (add_zero m.haltingTime).symm
  | succ n ih =>
    have soon : ((0 : ℕ) : ℕ∞) < m.haltingTime :=
      lt_of_lt_of_le (Nat.cast_lt.mpr n.succ_pos) within
    have running : m.running = true := running_of_lt_haltingTime (n := 0) soon
    have later := haltingTime_eq_step_add_one running
    rw [later, Nat.cast_add, Nat.cast_one] at within
    have rest := ih ((ENat.add_le_add_iff_right ENat.one_ne_top).mp within)
    rw [later, rest, Function.iterate_succ_apply, Nat.cast_add, Nat.cast_one, add_assoc]

end Machine

/-! ## Programs -/

/-- The bytes below the address that a booted machine goes on from. -/
def bootPage : ByteArray :=
  ⟨Array.replicate 256 0⟩

theorem size_bootPage : bootPage.size = 256 :=
  Array.size_replicate

/-- An opcode without a meaning, and another opcode behind it. -/
def undefinedThen (o : Byte) : ByteArray :=
  bootPage ++ ⟨#[0xD3, o]⟩

theorem size_undefinedThen (o : Byte) : (undefinedThen o).size = 258 := by
  rw [undefinedThen, ByteArray.size_append, size_bootPage]
  rfl

namespace Machine

/-- A machine that has booted over a program and is about to take it from its first byte. -/
def ofProgram (program : ByteArray) : Machine :=
  { ofImage program with regs.pc := 0 }

/-- Where booting writes nothing, memory holds the program. -/
theorem get_ofProgram (program : ByteArray) (a : Word)
    (unwritten : Memory.bootCells.lookup a = none) :
    (ofProgram program).memory.get a =
      if h : a.toNat < program.size then program[a.toNat] else 0 := by
  rw [ofProgram, ofImage, Memory.get_boot, unwritten, Memory.get_ofImage]
  rfl

/-- Code behind the boot page is found from the address on that a booted machine goes on from. -/
theorem get_ofImage_bootPage (code : ByteArray) {a : Word} {i : ℕ} (place : a.toNat = 256 + i)
    (inside : i < code.size) (unwritten : Memory.bootCells.lookup a = none) :
    (ofImage (bootPage ++ code)).memory.get a = code[i] := by
  have size := size_bootPage
  have mapped : a.toNat < (bootPage ++ code).size := by
    rw [ByteArray.size_append, size, place]
    exact Nat.add_lt_add_left inside 256
  rw [ofImage, Memory.get_boot, unwritten, Memory.get_ofImage, Option.getD_none, dif_pos mapped,
    ByteArray.getElem_append_right (by omega)]
  simp only [place, size, Nat.add_sub_cancel_left]

theorem opcode_undefinedThen (o : Byte) : (ofImage (undefinedThen o)).opcode = 0xD3 := by
  have unwritten : Memory.bootCells.lookup 0x0100 = none := by decide
  exact get_ofImage_bootPage ⟨#[0xD3, o]⟩ (i := 0) rfl Nat.zero_lt_two unwritten

theorem step_undefinedThen (o : Byte) :
    (ofImage (undefinedThen o)).step =
      { ofImage (undefinedThen o) with
        regs.pc := 0x0101
        instructionCount := 1
        lastDiagnostic := some (.illegal 0xD3 0x0100) } := by
  rw [step_eq, opcode_undefinedThen]
  rfl

theorem opcode_step_undefinedThen (o : Byte) : (ofImage (undefinedThen o)).step.opcode = o := by
  have unwritten : Memory.bootCells.lookup 0x0101 = none := by decide
  rw [step_undefinedThen]
  exact get_ofImage_bootPage ⟨#[0xD3, o]⟩ (i := 1) rfl Nat.one_lt_two unwritten

end Machine

end Sm83
