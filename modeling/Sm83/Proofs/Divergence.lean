import Mathlib.Data.Finite.Prod
import Mathlib.Data.Fintype.Pigeonhole
import Mathlib.Dynamics.PeriodicPts.Defs
import Sm83.Proofs.Core

/-! A machine that never halts is one that comes back to a core it had before. There are finitely many
cores, so a machine that runs forever repeats one; and since a step sees nothing but the core, a
machine that repeats one goes round from there on. `diverges_iff_revisits` says so, and says where on
the round a run on a budget is left. -/
namespace Sm83

/-! ## There are finitely many cores -/

instance : Finite Byte :=
  Finite.of_injective UInt8.toFin fun _ _ => UInt8.toFin_inj.mp

instance : Finite Word :=
  Finite.of_injective UInt16.toFin fun _ _ => UInt16.toFin_inj.mp

instance : Finite Memory :=
  Finite.of_injective Memory.get fun _ _ same => Memory.ext_get (congrFun same)

instance : Finite Flags := by
  apply Finite.of_injective fun f : Flags => (f.zero, f.carry, f.halfCarry, f.negate)
  rintro ⟨⟩ ⟨⟩ same
  simpa using same

instance : Finite Registers := by
  apply Finite.of_injective fun r : Registers =>
    ((r.a, r.b, r.c, r.d, r.e, r.h, r.l), r.flags, r.sp, r.pc)
  rintro ⟨⟩ ⟨⟩ same
  simpa [and_assoc] using same

instance : Finite Core := by
  apply Finite.of_injective fun c : Core => (c.regs, c.memory)
  rintro ⟨⟩ ⟨⟩ same
  simpa using same

/-- A sequence of iterates that takes a value twice goes round between the two places. -/
private theorem iterate_eq_iterate_mod {α : Type} {f : α → α} {x : α} {i j n : ℕ} (before : i ≤ j)
    (repeats : f^[i] x = f^[j] x) (reached : i ≤ n) :
    f^[n] x = f^[i + (n - i) % (j - i)] x := by
  have round : Function.IsPeriodicPt f (j - i) (f^[i] x) := by
    rw [Function.IsPeriodicPt, Function.IsFixedPt, ← Function.iterate_add_apply,
      Nat.sub_add_cancel before, repeats]
  calc f^[n] x = f^[n - i] (f^[i] x) := by
        rw [← Function.iterate_add_apply, Nat.sub_add_cancel reached]
    _ = f^[(n - i) % (j - i)] (f^[i] x) := (round.iterate_mod_apply (n - i)).symm
    _ = f^[i + (n - i) % (j - i)] x := by rw [← Function.iterate_add_apply, Nat.add_comm]

/-! ## Machines that go round -/

namespace Machine

/-- The machine runs after every number of steps. -/
def Diverges (m : Machine) : Prop :=
  ∀ n, (step^[n] m).running = true

/-- The machine has the same core after `i` and after `j` steps, and runs until then. -/
structure Revisits (m : Machine) (i j : ℕ) : Prop where
  before : i < j
  same : (step^[i] m).core = (step^[j] m).core
  running : ∀ n ≤ j, (step^[n] m).running = true

variable {m : Machine} {i j n : ℕ}

/-- A machine that runs forever repeats a core. -/
theorem Diverges.exists_revisits (diverges : m.Diverges) : ∃ i j, m.Revisits i j := by
  obtain ⟨i, j, different, same⟩ :=
    Finite.exists_ne_map_eq_of_infinite fun n => (step^[n] m).core
  rcases Nat.lt_or_gt_of_ne different with before | before
  · exact ⟨i, j, before, same, fun n _ => diverges n⟩
  · exact ⟨j, i, before, same.symm, fun n _ => diverges n⟩

/-- Each core from the first visit on is one between the two visits. -/
theorem Revisits.core_iterate (revisits : m.Revisits i j) (reached : i ≤ n) :
    (step^[n] m).core = (step^[i + (n - i) % (j - i)] m).core := by
  have repeats := revisits.same
  rw [Machine.core_iterate, Machine.core_iterate] at repeats ⊢
  exact iterate_eq_iterate_mod revisits.before.le repeats reached

/-- What a machine that goes round fetches never halts it: between the visits because it runs on, and
behind them because the core is one from between. -/
theorem Revisits.opcode_notMem (revisits : m.Revisits i j) (n : ℕ) :
    (step^[n] m).opcode ∉ haltingOpcodes := by
  have between : ∀ k < j, (step^[k] m).opcode ∉ haltingOpcodes := by
    intro k inside halting
    have running := revisits.running (k + 1) inside
    rw [Function.iterate_succ_apply', running_step] at running
    simp [halting] at running
  rcases Nat.lt_or_ge n j with inside | behind
  · exact between n inside
  · have reached : i ≤ n := revisits.before.le.trans behind
    have inside : i + (n - i) % (j - i) < j := by
      have := revisits.before
      have := Nat.mod_lt (n - i) (Nat.sub_pos_of_lt revisits.before)
      omega
    have fetched := fetch_eq (revisits.core_iterate reached)
    have opcode : (step^[n] m).opcode = (step^[i + (n - i) % (j - i)] m).opcode :=
      congrArg Fetch.opcode fetched
    rw [opcode]
    exact between _ inside

/-- A machine that repeats a core runs forever. -/
theorem Revisits.diverges (revisits : m.Revisits i j) : m.Diverges := by
  intro n
  induction n with
  | zero => exact revisits.running 0 (Nat.zero_le j)
  | succ n ih =>
    rw [Function.iterate_succ_apply', running_step, ih, Bool.and_true, Bool.not_eq_true',
      decide_eq_false_iff_not]
    exact revisits.opcode_notMem n

end Machine

/-! ## Runs that do not halt -/

namespace Session

/-- **A machine runs forever exactly if it revisits a core.** Then each run on a budget spends it, and
leaves the core that the machine has somewhere between the two visits, as many steps behind the first
one as the rest of the budget comes to modulo the length of the round. -/
theorem diverges_iff_revisits (s : Session) :
    (s.machine.Diverges ↔ ∃ i j, s.machine.Revisits i j) ∧
    (s.machine.Diverges → ∀ budget, ∃ e, s.run (some budget) = some e ∧
      e.outcome = ⟨budget, .budgetExhausted⟩ ∧
      ∀ i j, s.machine.Revisits i j → i ≤ budget →
        e.session.machine.core =
          (Machine.step^[i + (budget - i) % (j - i)] s.machine).core) := by
  refine ⟨⟨Machine.Diverges.exists_revisits, ?_⟩, ?_⟩
  · rintro ⟨i, j, revisits⟩
    exact revisits.diverges
  · intro diverges budget
    refine ⟨s.endedAfter budget, congrArg some (runFor_of_running (diverges budget)),
      outcome_endedAfter_of_running (diverges budget), ?_⟩
    intro i j revisits reached
    rw [machine_endedAfter]
    exact revisits.core_iterate reached

/-- A machine in front of a jump to itself. -/
def atLoop : Session where
  machine := .ofProgram ⟨#[0x18, 0xFE]⟩

private theorem opcode_atLoop : atLoop.machine.opcode = 0x18 :=
  Machine.get_ofProgram _ 0 (by decide)

private theorem core_step_atLoop : atLoop.machine.step.core = atLoop.machine.core := by
  have stepped : atLoop.machine.step.core =
      ⟨{ atLoop.machine.regs with pc := Word.displace (0 + 1) atLoop.machine.operandByte + 1 },
        atLoop.machine.memory⟩ := by
    rw [Machine.step_eq, opcode_atLoop]
    rfl
  have operand : atLoop.machine.operandByte = 0xFE := Machine.get_ofProgram _ 1 (by decide)
  have back : Word.displace (0 + 1) 0xFE + 1 = 0 := by decide
  rw [stepped, operand, back]
  rfl

theorem revisits_atLoop : atLoop.machine.Revisits 0 1 where
  before := Nat.zero_lt_one
  same := core_step_atLoop.symm
  running n early := by
    rcases Nat.le_one_iff_eq_zero_or_eq_one.mp early with rfl | rfl
    · rfl
    · have stepped := atLoop.machine.running_step
      rw [opcode_atLoop] at stepped
      exact stepped

theorem diverges_atLoop :
    atLoop.machine.Revisits 0 1 ∧ atLoop.machine.Diverges ∧
    ∃ e, atLoop.run (some 1000) = some e ∧ e.outcome = ⟨1000, .budgetExhausted⟩ ∧
      e.session.machine.core = atLoop.machine.core := by
  obtain ⟨⟨-, goesRound⟩, runs⟩ := diverges_iff_revisits atLoop
  have diverges := goesRound ⟨0, 1, revisits_atLoop⟩
  obtain ⟨e, ended, outcome, left⟩ := runs diverges 1000
  exact ⟨revisits_atLoop, diverges, e, ended, outcome, left 0 1 revisits_atLoop (Nat.zero_le _)⟩

end Session

end Sm83
