import Sm83.Proofs.LatchHistory
import Sm83.Session

/-! A run is a bounded number of steps: as many as the budget allows, and no more than it takes the
machine to halt. `run_eq_iterate` says which state a run leaves, what it counts, and which of the two
ends it reports; a machine that halts on its last budgeted step has halted. -/
namespace Sm83.Session

/-- The machine of a session takes the steps of a machine alone. -/
theorem machine_iterate (s : Session) (n : ℕ) :
    (step^[n] s).machine = Machine.step^[n] s.machine := by
  induction n with
  | zero => rfl
  | succ n ih => rw [Function.iterate_succ_apply', Function.iterate_succ_apply', machine_step, ih]

/-- A number of steps that is the halting time or a budget, whichever is less, ends on a halted
machine exactly if the halting time is within the budget. -/
theorem halted_iff_haltingTime_le {m : Machine} {n budget : ℕ}
    (least : (n : ℕ∞) = min m.haltingTime budget) :
    (Machine.step^[n] m).running = false ↔ m.haltingTime ≤ budget := by
  constructor
  · intro halted
    calc m.haltingTime ≤ n := Machine.haltingTime_le halted
      _ ≤ budget := least ▸ min_le_right _ _
  · intro within
    rw [min_eq_left within] at least
    exact Machine.halted_at_haltingTime least.symm

/-- What is left of a budget, and where the steps taken from it lead. -/
theorem advance_eq_iterate (budget : ℕ) (s : Session) :
    ∃ n : ℕ, (n : ℕ∞) = min s.machine.haltingTime budget ∧
      s.advance budget = (step^[n] s, budget - n) := by
  induction budget generalizing s with
  | zero => exact ⟨0, by simp, rfl⟩
  | succ budget ih =>
    cases running : s.machine.running with
    | false =>
      refine ⟨0, ?_, s.advance_of_halted _ running⟩
      rw [Machine.haltingTime_eq_zero running]
      simp
    | true =>
      obtain ⟨n, least, advanced⟩ := ih s.step
      refine ⟨n + 1, ?_, ?_⟩
      · rw [Machine.haltingTime_eq_step_add_one running, ← machine_step, Nat.cast_add, least,
          Nat.cast_add, Nat.cast_one, min_add_add_right]
      · rw [advance_of_running budget s running, advanced, Nat.add_sub_add_right]
        rfl

/-- A run that ends behind a number of steps, and says whether the machine has halted. -/
def endedAfter (s : Session) (n : ℕ) : Ended :=
  let t := step^[n] s
  let reason : StopReason := if t.machine.running then .budgetExhausted else .halted
  let outcome : Outcome := { steps := n, reason }
  { session := { t with log := t.log.emit (.finished outcome t.machine.regs.pc) }, outcome }

@[simp] theorem steps_endedAfter (s : Session) (n : ℕ) : (s.endedAfter n).outcome.steps = n := rfl

theorem machine_endedAfter (s : Session) (n : ℕ) :
    (s.endedAfter n).session.machine = Machine.step^[n] s.machine :=
  s.machine_iterate n

theorem reason_endedAfter (s : Session) (n : ℕ) :
    (s.endedAfter n).outcome.reason = .halted ↔ (Machine.step^[n] s.machine).running = false := by
  rw [← machine_iterate]
  simp only [endedAfter]
  cases (step^[n] s).machine.running <;> simp

theorem outcome_endedAfter_of_haltingTime {k : ℕ} {s : Session} (time : s.machine.haltingTime = k) :
    (s.endedAfter k).outcome = ⟨k, .halted⟩ := by
  rw [← (s.reason_endedAfter k).mpr (Machine.halted_at_haltingTime time)]
  rfl

theorem outcome_endedAfter_of_running {s : Session} {n : ℕ}
    (running : (Machine.step^[n] s.machine).running = true) :
    (s.endedAfter n).outcome = ⟨n, .budgetExhausted⟩ := by
  simp [endedAfter, machine_iterate, running]

/-- A run on a budget ends behind as many steps as halting takes, or behind its budget. -/
theorem runFor_eq_endedAfter (budget : ℕ) (s : Session) :
    ∃ n : ℕ, (n : ℕ∞) = min s.machine.haltingTime budget ∧ s.runFor budget = s.endedAfter n := by
  obtain ⟨n, least, advanced⟩ := s.advance_eq_iterate budget
  have within : n ≤ budget := by
    have bound : (n : ℕ∞) ≤ budget := least ▸ min_le_right _ _
    exact_mod_cast bound
  refine ⟨n, least, ?_⟩
  simp only [runFor, advanced, Nat.sub_sub_self within]
  rfl

/-- A budget that is not spent does not matter. -/
theorem runFor_eq_of_haltingTime {k budget : ℕ} {s : Session} (time : s.machine.haltingTime = k)
    (within : k ≤ budget) : s.runFor budget = s.endedAfter k := by
  obtain ⟨n, least, ended⟩ := s.runFor_eq_endedAfter budget
  rw [time, min_eq_left (Nat.cast_le.mpr within)] at least
  rw [ended, Nat.cast_inj.mp least]

/-- A machine that still runs behind its budget has spent it. -/
theorem runFor_of_running {budget : ℕ} {s : Session}
    (running : (Machine.step^[budget] s.machine).running = true) :
    s.runFor budget = s.endedAfter budget := by
  obtain ⟨n, least, ended⟩ := s.runFor_eq_endedAfter budget
  rcases le_or_gt s.machine.haltingTime budget with within | beyond
  · have early : n ≤ budget := Nat.cast_le.mp (least ▸ min_le_right _ _)
    have runs := Machine.running_iterate_of_le early running
    have halted := (halted_iff_haltingTime_le least).mpr within
    exact absurd (runs.symm.trans halted) (by decide)
  · rw [min_eq_right beyond.le] at least
    rw [ended, Nat.cast_inj.mp least]

/-- Without a budget a run lasts until the machine halts, if its steps can still be counted then. -/
theorem run_none_eq {k : ℕ} {s : Session} (time : s.machine.haltingTime = k) (counted : k < 2 ^ 64) :
    s.run none = some (s.endedAfter k) := by
  have within : k ≤ longest := by
    rw [longest, UInt64.size]
    omega
  have halted := (s.reason_endedAfter k).mpr (Machine.halted_at_haltingTime time)
  simp only [run, runFor_eq_of_haltingTime time within, halted]

/-- A run that ends has run on its budget, or on the greatest one if it had none. -/
theorem eq_runFor_of_run {s : Session} {budget : Option ℕ} {e : Ended}
    (ended : s.run budget = some e) : e = s.runFor (budget.getD longest) := by
  cases budget with
  | some b => exact (Option.some.inj ended).symm
  | none =>
    simp only [run] at ended
    split at ended
    · exact (Option.some.inj ended).symm
    · cases ended

/-- A run that ends does so behind the steps it counts. -/
theorem eq_endedAfter_of_run {s : Session} {budget : Option ℕ} {e : Ended}
    (ended : s.run budget = some e) : e = s.endedAfter e.outcome.steps := by
  obtain ⟨n, -, after⟩ := s.runFor_eq_endedAfter (budget.getD longest)
  rw [eq_runFor_of_run ended, after, steps_endedAfter]

/-- The machine that a run leaves is the one its steps lead to. -/
theorem machine_of_run {s : Session} {budget : Option ℕ} {e : Ended}
    (ended : s.run budget = some e) :
    e.session.machine = Machine.step^[e.outcome.steps] s.machine := by
  have left := congrArg (·.session.machine) (eq_endedAfter_of_run ended)
  exact left.trans (s.machine_endedAfter e.outcome.steps)

/-- A run reports that the machine has halted exactly if it has. -/
theorem reason_of_run {s : Session} {budget : Option ℕ} {e : Ended} (ended : s.run budget = some e) :
    e.outcome.reason = .halted ↔ e.session.machine.running = false := by
  rw [machine_of_run ended, ← reason_endedAfter, ← eq_endedAfter_of_run ended]

private theorem steps_runFor_le (s : Session) (budget : ℕ) :
    (s.runFor budget).outcome.steps ≤ budget := by
  obtain ⟨n, least, ended⟩ := s.runFor_eq_endedAfter budget
  have within : (n : ℕ∞) ≤ budget := least ▸ min_le_right _ _
  rw [ended, steps_endedAfter]
  exact_mod_cast within

/-- On a budget that can be counted, or on none, the steps of a run that ends can be counted. -/
theorem steps_lt_of_run {s : Session} {budget : Option ℕ} {e : Ended}
    (ended : s.run budget = some e) (counted : ∀ b ∈ budget, b < 2 ^ 64) :
    e.outcome.steps < 2 ^ 64 := by
  have within : e.outcome.steps ≤ budget.getD longest := by
    rw [eq_runFor_of_run ended]
    exact s.steps_runFor_le _
  cases budget with
  | some b => exact within.trans_lt (counted b rfl)
  | none => exact Nat.lt_of_le_of_lt within (by decide)

/-- The most steps that a budget allows. -/
def allowed : Option ℕ → ℕ∞
  | some budget => budget
  | none => ⊤

/-- A run without a budget ends only on a machine that halts while its steps can be counted. -/
theorem haltingTime_le_of_run_none {s : Session} {e : Ended} (ended : s.run none = some e) :
    s.machine.haltingTime ≤ longest := by
  obtain ⟨n, least, after⟩ := s.runFor_eq_endedAfter longest
  simp only [run, after] at ended
  split at ended
  · next halted => exact (halted_iff_haltingTime_le least).mp ((s.reason_endedAfter n).mp halted)
  · cases ended

/-- A run ends behind the steps that its budget allows, or behind fewer if the machine halts, as long as
they can be counted; and else it does not end. -/
theorem run_eq_some_iff {s : Session} {budget : Option ℕ} {e : Ended}
    (counted : ∀ b ∈ budget, b < 2 ^ 64) :
    s.run budget = some e ↔
      ∃ k : ℕ, (k : ℕ∞) = min s.machine.haltingTime (allowed budget) ∧ k < 2 ^ 64 ∧
        e = s.endedAfter k := by
  constructor
  · intro ended
    refine ⟨e.outcome.steps, ?_, steps_lt_of_run ended counted, eq_endedAfter_of_run ended⟩
    obtain ⟨n, least, after⟩ := s.runFor_eq_endedAfter (budget.getD longest)
    rw [eq_runFor_of_run ended, after, steps_endedAfter, least]
    cases budget with
    | some b => rfl
    | none =>
      rw [allowed, min_top_right]
      exact min_eq_left (haltingTime_le_of_run_none ended)
  · rintro ⟨k, least, short, rfl⟩
    cases budget with
    | some b =>
      obtain ⟨n, least', after⟩ := s.runFor_eq_endedAfter b
      have same : n = k := Nat.cast_inj.mp (least'.trans least.symm)
      rw [← same]
      exact congrArg some after
    | none =>
      rw [allowed, min_top_right] at least
      exact run_none_eq least.symm short

/-- **A run is a bounded number of steps.** On a budget it takes the lesser of the budget and the
halting time, ends in the state these steps lead to, and has halted exactly if the halting time is
within the budget. Without a budget, a machine that halts runs until then, and does what it does on
every budget that suffices. The instruction count grows by the steps reported. -/
theorem run_eq_iterate (s : Session) :
    (∀ budget : ℕ, ∃ e, s.run (some budget) = some e ∧
      (e.outcome.steps : ℕ∞) = min s.machine.haltingTime budget ∧
      e.session.machine = Machine.step^[e.outcome.steps] s.machine ∧
      (e.outcome.reason = .halted ↔ s.machine.haltingTime ≤ budget) ∧
      e.session.machine.instructionCount =
        s.machine.instructionCount + .ofNat e.outcome.steps) ∧
    (∀ k : ℕ, s.machine.haltingTime = k → k < 2 ^ 64 → ∃ e, s.run none = some e ∧
      e.outcome = ⟨k, .halted⟩ ∧
      e.session.machine = Machine.step^[k] s.machine ∧
      e.session.machine.instructionCount = s.machine.instructionCount + .ofNat k ∧
      ∀ budget, k ≤ budget → s.run (some budget) = some e) := by
  constructor
  · intro budget
    obtain ⟨n, least, ended⟩ := s.runFor_eq_endedAfter budget
    refine ⟨s.endedAfter n, congrArg some ended, least, s.machine_endedAfter n, ?_, ?_⟩
    · exact (s.reason_endedAfter n).trans (halted_iff_haltingTime_le least)
    · rw [machine_endedAfter, Machine.instructionCount_iterate, steps_endedAfter]
  · intro k time counted
    have halted := (s.reason_endedAfter k).mpr (Machine.halted_at_haltingTime time)
    refine ⟨s.endedAfter k, run_none_eq time counted, ?_, s.machine_endedAfter k, ?_, ?_⟩
    · rw [← halted]
      rfl
    · rw [machine_endedAfter, Machine.instructionCount_iterate]
    · intro budget within
      exact congrArg some (runFor_eq_of_haltingTime time within)

/-- A machine in front of a single stop. -/
def atStop : Session where
  machine := { Machine.ofImage ⟨#[0x10]⟩ with regs.pc := 0 }

theorem haltingTime_atStop : atStop.machine.haltingTime = (1 : ℕ) := by
  have fetched : atStop.machine.opcode = 0x10 := by
    have unwritten : Memory.bootCells.lookup 0 = none := by decide
    rw [Machine.opcode, atStop, Machine.ofImage, Memory.get_boot, unwritten, Memory.get_ofImage]
    rfl
  have stops : atStop.machine.step.running = false := by
    rw [Machine.running_step, fetched]
    rfl
  refine Machine.haltingTime_eq_coe_iff.mpr ⟨stops, ?_⟩
  intro n before
  obtain rfl : n = 0 := Nat.lt_one_iff.mp before
  rfl

/-- Halting on the last budgeted step is halting. -/
theorem run_atStop :
    atStop.machine.haltingTime = (1 : ℕ) ∧ 1 < 2 ^ 64 ∧
    ∃ e, atStop.run none = some e ∧ e.outcome = ⟨1, .halted⟩ ∧ atStop.run (some 1) = some e := by
  have counted : 1 < 2 ^ 64 := by decide
  obtain ⟨e, ended, outcome, -, -, same⟩ :=
    (run_eq_iterate atStop).2 1 haltingTime_atStop counted
  exact ⟨haltingTime_atStop, counted, e, ended, outcome, same 1 le_rfl⟩

end Sm83.Session
