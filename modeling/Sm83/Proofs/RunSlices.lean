import Sm83.Proofs.Divergence

/-! Runs in slices. A run that is cut into several, each on its share of the budget and from where the
last one ended, leaves the machine that one run on the whole budget leaves. The steps add up, and the
last slice ends for the reason the whole run ends for, wherever among the slices the halt falls
(`runSlices_eq_run_sum`). -/
namespace Sm83.Session

/-- Runs on one budget after the other, each time from where the last run ended. -/
def runSlices (s : Session) : List ℕ → Option (List Ended)
  | [] => some []
  | budget :: rest => do
    let first ← s.run (some budget)
    let later ← first.session.runSlices rest
    return first :: later

variable {s : Session} {budget b c : ℕ} {budgets rest : List ℕ} {ends : List Ended}

private theorem runSlices_cons_eq_some :
    s.runSlices (budget :: rest) = some ends ↔
      ∃ later, (s.runFor budget).session.runSlices rest = some later ∧
        s.runFor budget :: later = ends := by
  have ran : s.run (some budget) = some (s.runFor budget) := rfl
  simp [runSlices, ran, Option.bind_eq_some_iff]

/-- Every slice ends. -/
theorem exists_runSlices (s : Session) (budgets : List ℕ) :
    ∃ ends, s.runSlices budgets = some ends := by
  induction budgets generalizing s with
  | nil => exact ⟨[], rfl⟩
  | cons budget rest ih =>
    obtain ⟨later, ran⟩ := ih (s.runFor budget).session
    exact ⟨_, runSlices_cons_eq_some.mpr ⟨later, ran, rfl⟩⟩

/-! ## Two slices -/

/-- A machine that takes what it can of one budget and then of another takes what it can of both. -/
private theorem add_min_haltingTime {m : Machine} {n k w : ℕ}
    (first : (n : ℕ∞) = min m.haltingTime b)
    (second : (k : ℕ∞) = min (Machine.step^[n] m).haltingTime c)
    (whole : (w : ℕ∞) = min m.haltingTime (b + c : ℕ)) : n + k = w := by
  have within : (n : ℕ∞) ≤ m.haltingTime := first ▸ min_le_left _ _
  rw [Machine.haltingTime_eq_iterate_add within] at first whole
  cases left : (Machine.step^[n] m).haltingTime with
  | top =>
    rw [left, top_add, min_eq_right le_top] at first whole
    rw [left, min_eq_right le_top] at second
    rw [Nat.cast_inj] at first second whole
    rw [first, second, whole]
  | coe h =>
    have cast_min (x y : ℕ) : ((min x y : ℕ) : ℕ∞) = min (x : ℕ∞) y := Nat.mono_cast.map_min
    rw [left, ← Nat.cast_add, ← cast_min, Nat.cast_inj] at first whole
    rw [left, ← cast_min, Nat.cast_inj] at second
    omega

/-- Why a run ended is seen from the machine it left. -/
private theorem reason_endedAfter_eq {t : Session} {n k : ℕ}
    (same : Machine.step^[n] s.machine = Machine.step^[k] t.machine) :
    (s.endedAfter n).outcome.reason = (t.endedAfter k).outcome.reason := by
  simp only [endedAfter, machine_iterate, same]

/-- Two slices are one run on both budgets. -/
theorem runFor_add (s : Session) (b c : ℕ) :
    let first := s.runFor b
    let second := first.session.runFor c
    let whole := s.runFor (b + c)
    second.session.machine = whole.session.machine ∧
    first.outcome.steps + second.outcome.steps = whole.outcome.steps ∧
    second.outcome.reason = whole.outcome.reason := by
  intro first second whole
  obtain ⟨n, firstLeast, firstEnded⟩ := s.runFor_eq_endedAfter b
  obtain ⟨k, secondLeast, secondEnded⟩ := first.session.runFor_eq_endedAfter c
  obtain ⟨w, wholeLeast, wholeEnded⟩ := s.runFor_eq_endedAfter (b + c)
  have between : first.session.machine = Machine.step^[n] s.machine :=
    (congrArg (·.session.machine) firstEnded).trans (s.machine_endedAfter n)
  rw [between] at secondLeast
  have steps : n + k = w := add_min_haltingTime firstLeast secondLeast wholeLeast
  have same : Machine.step^[k] first.session.machine = Machine.step^[w] s.machine := by
    rw [between, ← Function.iterate_add_apply, Nat.add_comm k n, steps]
  have firstSteps : first.outcome.steps = n := congrArg (·.outcome.steps) firstEnded
  have secondIs : second = first.session.endedAfter k := secondEnded
  have wholeIs : whole = s.endedAfter w := wholeEnded
  rw [secondIs, wholeIs]
  refine ⟨?_, ?_, reason_endedAfter_eq same⟩
  · rw [machine_endedAfter, machine_endedAfter, same]
  · rw [firstSteps, steps_endedAfter, steps_endedAfter, steps]

/-! ## Many slices -/

/-- The slices of a machine that has halted take no step. -/
theorem outcome_of_mem_runSlices (halted : s.machine.running = false)
    (ran : s.runSlices budgets = some ends) : ∀ e ∈ ends, e.outcome = ⟨0, .halted⟩ := by
  induction budgets generalizing s ends with
  | nil =>
    cases ran
    exact fun e member => absurd member List.not_mem_nil
  | cons budget rest ih =>
    obtain ⟨later, others, rfl⟩ := runSlices_cons_eq_some.mp ran
    have time : s.machine.haltingTime = (0 : ℕ) := Machine.haltingTime_eq_zero halted
    have stays : s.runFor budget = s.endedAfter 0 := runFor_eq_of_haltingTime time (Nat.zero_le _)
    rw [stays] at others ⊢
    rintro e (_ | ⟨_, member⟩)
    · exact outcome_endedAfter_of_haltingTime time
    · exact ih (s := (s.endedAfter 0).session) halted others e member

/-- Once a slice reports that the machine has halted, so does every later one, without a step. -/
theorem pairwise_runSlices (ran : s.runSlices budgets = some ends) :
    ends.Pairwise fun e later => e.outcome.reason = .halted → later.outcome = ⟨0, .halted⟩ := by
  induction budgets generalizing s ends with
  | nil =>
    cases ran
    exact .nil
  | cons budget rest ih =>
    obtain ⟨later, others, rfl⟩ := runSlices_cons_eq_some.mp ran
    refine .cons ?_ (ih others)
    intro e member halted
    have ended : s.run (some budget) = some (s.runFor budget) := rfl
    exact outcome_of_mem_runSlices ((reason_of_run ended).mp halted) others e member

/-- The slices of a machine that runs on spend their budgets. -/
theorem outcomes_of_running
    (running : (Machine.step^[budgets.sum] s.machine).running = true)
    (ran : s.runSlices budgets = some ends) :
    ends.map (·.outcome) = budgets.map (⟨·, .budgetExhausted⟩) := by
  induction budgets generalizing s ends with
  | nil =>
    cases ran
    rfl
  | cons budget rest ih =>
    obtain ⟨later, others, rfl⟩ := runSlices_cons_eq_some.mp ran
    rw [List.sum_cons] at running
    have first : (Machine.step^[budget] s.machine).running = true :=
      Machine.running_iterate_of_le (Nat.le_add_right budget rest.sum) running
    rw [runFor_of_running first] at others ⊢
    rw [Nat.add_comm, Function.iterate_add_apply, ← machine_endedAfter] at running
    rw [List.map_cons, List.map_cons, ih running others, outcome_endedAfter_of_running first]

/-- The slices together do what one run on all their budgets does. -/
theorem whole_of_runSlices (ran : s.runSlices (budget :: rest) = some ends) :
    ∃ last, ends.getLast? = some last ∧
      last.session.machine = (s.runFor (budget :: rest).sum).session.machine ∧
      (ends.map (·.outcome.steps)).sum = (s.runFor (budget :: rest).sum).outcome.steps ∧
      last.outcome.reason = (s.runFor (budget :: rest).sum).outcome.reason := by
  induction rest generalizing s budget ends with
  | nil =>
    obtain ⟨later, others, rfl⟩ := runSlices_cons_eq_some.mp ran
    cases others
    exact ⟨_, rfl, rfl, rfl, rfl⟩
  | cons second rest ih =>
    obtain ⟨later, others, rfl⟩ := runSlices_cons_eq_some.mp ran
    obtain ⟨last, isLast, machine, steps, reason⟩ := ih others
    obtain ⟨machines, allSteps, reasons⟩ := s.runFor_add budget (second :: rest).sum
    have nonempty : later ≠ [] := by
      rintro rfl
      cases isLast
    rw [List.sum_cons (a := budget)]
    refine ⟨last, ?_, machine.trans machines, ?_, reason.trans reasons⟩
    · rw [List.getLast?_cons_of_ne_nil nonempty, isLast]
    · rw [List.map_cons, List.sum_cons, steps, allSteps]

/-- **Slices run as one.** The slices of a run all end. The last of them leaves the machine that one
run on the sum of the budgets leaves, for the same reason, and the steps of all add up to the steps of
the one run. Slices of a machine that runs on spend their budgets, and behind a slice that reports a
halt every other reports it too, without taking a step. -/
theorem runSlices_eq_run_sum (s : Session) (budgets : List ℕ) (nonempty : budgets ≠ []) :
    ∃ ends last whole,
      s.runSlices budgets = some ends ∧ ends.getLast? = some last ∧
      s.run (some budgets.sum) = some whole ∧
      last.session.machine = whole.session.machine ∧
      (ends.map (·.outcome.steps)).sum = whole.outcome.steps ∧
      last.outcome.reason = whole.outcome.reason ∧
      ((∀ n ≤ budgets.sum, (Machine.step^[n] s.machine).running = true) →
        ends.map (·.outcome) = budgets.map (⟨·, .budgetExhausted⟩)) ∧
      ends.Pairwise fun e later => e.outcome.reason = .halted → later.outcome = ⟨0, .halted⟩ := by
  obtain ⟨budget, rest, rfl⟩ := List.exists_cons_of_ne_nil nonempty
  obtain ⟨ends, ran⟩ := s.exists_runSlices (budget :: rest)
  obtain ⟨last, isLast, machine, steps, reason⟩ := whole_of_runSlices ran
  refine ⟨ends, last, _, ran, isLast, rfl, machine, steps, reason, ?_, pairwise_runSlices ran⟩
  intro running
  exact outcomes_of_running (running _ le_rfl) ran

/-- The halt falls at the end of the second slice of four; and a machine that never halts. -/
theorem runSlices_eq_run_sum_atStop :
    [0, 1, 0, 5] ≠ [] ∧
    (∃ ends last, atStop.runSlices [0, 1, 0, 5] = some ends ∧ ends.getLast? = some last ∧
      (ends.map (·.outcome.steps)).sum = 1 ∧ last.outcome.reason = .halted) ∧
    (∀ n ≤ [2, 0, 3].sum, (Machine.step^[n] atLoop.machine).running = true) ∧
    ∃ ends, atLoop.runSlices [2, 0, 3] = some ends ∧
      ends.map (·.outcome) =
        [⟨2, .budgetExhausted⟩, ⟨0, .budgetExhausted⟩, ⟨3, .budgetExhausted⟩] := by
  have slices : [0, 1, 0, 5] ≠ [] := List.cons_ne_nil _ _
  obtain ⟨ends, last, whole, ran, isLast, ended, -, steps, reason, -⟩ :=
    runSlices_eq_run_sum atStop _ slices
  have running : ∀ n ≤ [2, 0, 3].sum, (Machine.step^[n] atLoop.machine).running = true :=
    fun n _ => revisits_atLoop.diverges n
  obtain ⟨ends', -, -, ran', -, -, -, -, -, outcomes, -⟩ :=
    runSlices_eq_run_sum atLoop [2, 0, 3] (List.cons_ne_nil _ _)
  have wholeIs : whole = atStop.endedAfter 1 := by
    have within : 1 ≤ [0, 1, 0, 5].sum := by decide
    exact (Option.some.inj ended).symm.trans (runFor_eq_of_haltingTime haltingTime_atStop within)
  have outcome : whole.outcome = ⟨1, .halted⟩ := by
    rw [wholeIs, outcome_endedAfter_of_haltingTime haltingTime_atStop]
  rw [outcome] at steps reason
  exact ⟨slices, ⟨ends, last, ran, isLast, steps, reason⟩, running, ends', ran', outcomes running⟩

end Sm83.Session
