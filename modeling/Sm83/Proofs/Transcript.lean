import Sm83.Proofs.Core
import Sm83.Run

/-! The log is a transcript of the run, word for word. Every step leaves a trace of what it is about to
execute, and behind it what the opcode has to tell, if anything. Around the steps stand how the run
began and how it ended. A stricter threshold leaves lines out and changes nothing else, and the
diagnostic that is named in the end is that of the last warning or error (`log_eq_transcript`). -/
namespace Sm83

/-! ## Many records -/

namespace Log

/-- Emits records one behind the other. -/
def emitAll (log : Log) (records : List Record) : Log :=
  records.foldl emit log

private theorem emitAll_append (log : Log) (first second : List Record) :
    log.emitAll (first ++ second) = (log.emitAll first).emitAll second :=
  List.foldl_append

private theorem keeps_emit (log : Log) (r : Record) : (log.emit r).keeps = log.keeps := by
  funext s
  rw [keeps, keeps, threshold_emit]

/-- Of many records a log keeps those that are severe enough, in their order. -/
theorem records_emitAll (log : Log) (records : List Record) :
    (log.emitAll records).records.toList =
      log.records.toList ++ records.filter (log.keeps ·.severity) := by
  induction records generalizing log with
  | nil => exact (List.append_nil _).symm
  | cons r rest ih =>
    rw [emitAll, List.foldl_cons]
    refine (ih (log.emit r)).trans ?_
    rw [records_emit, keeps_emit, List.append_assoc]
    cases kept : log.keeps r.severity <;> simp [kept]

end Log

/-! ## Lines -/

/-- A line of a log: how severe it is, and what it says. -/
abbrev Line := Severity × String

/-- The line a record is shown as. -/
def Record.line (r : Record) : Line :=
  (r.severity, r.message)

/-- A log as it is shown. -/
def Log.lines (log : Log) : List Line :=
  log.records.toList.map Record.line

/-- The severities that pass at a level: its own and the greater ones. -/
def Severity.passing : Option Severity → List Severity
  | none => []
  | some .error => [.error]
  | some .warn => [.error, .warn]
  | some .info => [.error, .warn, .info]
  | some .debug => [.error, .warn, .info, .debug]
  | some .trace => [.error, .warn, .info, .debug, .trace]

namespace Line

/-- The line on the size of the image that a run is set up over. -/
def started (size : ℕ) : Line :=
  (.info, s!"Game Boy interpreter init: {size} byte image")

/-- The line on the instruction that is about to execute in a step, whose number is kept in 64 bits. -/
def traced (i : ℕ) (o : Byte) (r : Registers) : Line :=
  (.trace, s!"{i % 2 ^ 64}) PC={r.pc.hex} SP={r.sp.hex} I={o.hex} AF={r.af.hex} BC={r.bc.hex}" ++
    s!" DE={r.de.hex} HL={r.hl.hex}")

/-- What an opcode has to tell where it is fetched, if anything. -/
def notices (f : Fetch) : List Line :=
  if f.opcode = 0x10 then [(.debug, s!"STOP at PC=0x{f.pc.hex}; halting")]
  else if f.opcode = 0x27 then
    [(.error, s!"unimplemented opcode 27 (DAA) at PC=0x{f.pc.hex}; halting")]
  else if f.opcode ∈ undefinedOpcodes then
    [(.warn, s!"illegal opcode {f.opcode.hex} at PC=0x{f.pc.hex}")]
  else []

/-- The line on the end of a run. -/
def ended (o : Outcome) (pc : Word) : Line :=
  match o.reason with
  | .halted => (.info, s!"halted after {o.steps} steps at PC=0x{pc.hex}")
  | .budgetExhausted => (.info, s!"step budget of {o.steps} exhausted at PC=0x{pc.hex}")

/-- The line that the report takes up. -/
def reported (r : Report) : Line :=
  let ending :=
    match r.outcome.reason with
    | .halted => "halted"
    | .budgetExhausted => "step budget exhausted"
  let g := r.registers
  (.info, s!"{ending} after {r.outcome.steps} steps: PC=0x{g.pc.hex} SP=0x{g.sp.hex}" ++
    s!" AF=0x{g.af.hex} BC=0x{g.bc.hex} DE=0x{g.de.hex} HL=0x{g.hl.hex} IME={r.interruptsEnabled}")

/-- Whether a fetch makes for a warning or an error. -/
def complains (f : Fetch) : Bool :=
  (notices f).any fun line => line.1 = .warn ∨ line.1 = .error

/-- The line on the last warning or error, with the opcode and its address in decimal. -/
def lastDiagnostic (f : Fetch) : Line :=
  let kind := if f.opcode = 0x27 then "Unimplemented" else "Illegal"
  (.info, s!"last diagnostic: {kind} \x7b opcode: {f.opcode.toNat}, pc: {f.pc.toNat} \x7d")

end Line

/-! ## The transcript -/

namespace Machine

/-- What the next `n` steps have to tell, the first of them being step 0: each its number, opcode and
registers, and then what its opcode tells. -/
def told (m : Machine) (n : ℕ) : List Line :=
  (List.range n).flatMap fun i =>
    let s := step^[i] m
    Line.traced i s.opcode s.regs :: Line.notices s.fetch

/-- The fetch that made for the last warning or error of the next `n` steps. -/
def lastComplaint? (m : Machine) (n : ℕ) : Option Fetch :=
  ((m.fetches n).filter Line.complains).getLast?

end Machine

/-- The whole log of a run over an image that ends with a report. -/
def transcript (image : ByteArray) (dumpState : Bool) (report : Report) : List Line :=
  let fresh := Machine.ofImage image
  let steps := report.outcome.steps
  Line.started image.size ::
    fresh.told steps ++
    Line.ended report.outcome (Machine.step^[steps] fresh).regs.pc ::
    (if dumpState then [Line.reported report] else []) ++
    (fresh.lastComplaint? steps).toList.map Line.lastDiagnostic

/-! ## Records and their lines -/

/-! `delta` opens the wording of a record here: the equation lemmas of a function that puts texts
together would evaluate the texts. -/

/-- What stands in the gaps of a text may be a text itself. -/
private theorem toString_text (text : String) : toString text = text := rfl

private theorem line_started (size : ℕ) : Record.line (.started size) = Line.started size := by
  delta Record.line Record.severity Record.message Line.started
  simp only [toString_text]

private theorem line_traced (i : ℕ) (o : Byte) (r : Registers) :
    Record.line (.traced (.ofNat i) o r) = Line.traced i o r := by
  delta Record.line Record.severity Record.message Line.traced
  simp only [toString_text, UInt64.toNat_ofNat', String.append_assoc]

private theorem line_stopped {f : Fetch} (stop : f.opcode = 0x10) :
    [Record.line (.stopped f.pc)] = Line.notices f := by
  rw [Line.notices, if_pos stop]
  delta Record.line Record.severity Record.message
  simp only [toString_text]

private theorem line_unimplemented {f : Fetch} (daa : f.opcode = 0x27) :
    [Record.line (.diagnosed (.unimplemented 0x27 f.pc))] = Line.notices f := by
  have stop : f.opcode ≠ 0x10 := daa ▸ by decide
  have number : Byte.hex 0x27 = "27" := by decide
  have text : "unimplemented opcode " ++ "27" ++ " (DAA) at PC=0x" =
      "unimplemented opcode 27 (DAA) at PC=0x" := by decide
  rw [Line.notices, if_neg stop, if_pos daa]
  delta Record.line Record.severity Record.message
  simp only [toString_text, number, text]

private theorem line_illegal {f : Fetch} (stop : f.opcode ≠ 0x10) (daa : f.opcode ≠ 0x27)
    (undefined : f.opcode ∈ undefinedOpcodes) :
    [Record.line (.diagnosed (.illegal f.opcode f.pc))] = Line.notices f := by
  rw [Line.notices, if_neg stop, if_neg daa, if_pos undefined]
  delta Record.line Record.severity Record.message
  simp only [toString_text]

private theorem line_finished (o : Outcome) (pc : Word) :
    Record.line (.finished o pc) = Line.ended o pc := by
  obtain ⟨steps, reason⟩ := o
  delta Record.line Record.severity Record.message Line.ended
  cases reason <;> simp only [toString_text]

private theorem line_reported (r : Report) : Record.line (.reported r) = Line.reported r := by
  obtain ⟨⟨steps, reason⟩, registers, latch⟩ := r
  delta Record.line Record.severity Record.message Report.text StopReason.text Line.reported
  cases reason <;> simp only [toString_text, String.append_assoc]

private theorem describe_eq (name : String) (o : Byte) (pc : Word) :
    Diagnostic.describe.text name o pc =
      s!"{name} \x7b opcode: {o.toNat}, pc: {pc.toNat} \x7d" := by
  delta Diagnostic.describe.text Text.braced
  apply String.toList_inj.mp
  simp [toString_text, String.intercalate_cons_cons]

private theorem line_leftOver (f : Fetch) :
    Record.line (.leftOver f.diagnostic) = Line.lastDiagnostic f := by
  by_cases daa : f.opcode = 0x27
  all_goals
    rw [Fetch.diagnostic, Line.lastDiagnostic]
    simp only [daa, if_true, if_false]
    delta Record.line Record.severity Record.message Diagnostic.describe
    simp only [describe_eq]
    refine congrArg (Severity.info, ·) (String.toList_inj.mp ?_)
    simp [toString_text]

private theorem lines_leftOver (complaint : Option Fetch) :
    ((complaint.map Fetch.diagnostic).toList.map Record.leftOver).map Record.line =
      complaint.toList.map Line.lastDiagnostic := by
  cases complaint with
  | none => rfl
  | some f => exact congrArg ([·]) (line_leftOver f)

/-! ## What a step tells -/

namespace Instruction

/-- Whether an instruction has something to tell does not depend on where it stands. -/
private theorem notice?_eq_none {i : Instruction} (silent : (i.notice? 0).isNone) (pc : Word) :
    i.notice? pc = none := by
  cases i with
  | stop | decimalAdjust | undefined o => cases silent
  | _ => rfl

private theorem notice?_decode (f : Fetch) :
    ((decode f.opcode).notice? f.pc).toList.map Record.line = Line.notices f := by
  have table : ∀ o, (decode o = .stop ∧ o = 0x10) ∨ (decode o = .decimalAdjust ∧ o = 0x27) ∨
      (decode o = .undefined o ∧ o ≠ 0x10 ∧ o ≠ 0x27 ∧ o ∈ undefinedOpcodes) ∨
      (((decode o).notice? 0).isNone ∧ o ≠ 0x10 ∧ o ≠ 0x27 ∧ o ∉ undefinedOpcodes) := by
    apply Byte.forall_of_fields
    decide
  rcases table f.opcode with ⟨decoded, stop⟩ | ⟨decoded, daa⟩ |
    ⟨decoded, notStop, notDaa, undefined⟩ | ⟨silent, notStop, notDaa, defined⟩
  · rw [decoded]
    exact line_stopped stop
  · rw [decoded]
    exact line_unimplemented daa
  · rw [decoded]
    exact line_illegal notStop notDaa undefined
  · rw [notice?_eq_none silent, Line.notices, if_neg notStop, if_neg notDaa, if_neg defined]
    rfl

end Instruction

/-- The opcodes that make for a warning or an error are those that leave a diagnostic. -/
theorem Line.complains_eq (f : Fetch) : complains f = decide (f.opcode ∈ reportedOpcodes) := by
  have table : ∀ o, (o = 0x10 ∧ o ∉ reportedOpcodes) ∨ (o = 0x27 ∧ o ∈ reportedOpcodes) ∨
      (o ≠ 0x10 ∧ o ≠ 0x27 ∧ (o ∈ undefinedOpcodes ↔ o ∈ reportedOpcodes)) := by
    apply Byte.forall_of_fields
    decide
  rcases table f.opcode with ⟨stop, silent⟩ | ⟨daa, reported⟩ | ⟨notStop, notDaa, same⟩
  · rw [complains, notices, if_pos stop, decide_eq_false silent]
    rfl
  · have notStop : f.opcode ≠ 0x10 := daa ▸ by decide
    rw [complains, notices, if_neg notStop, if_pos daa, decide_eq_true reported]
    rfl
  · rw [complains, notices, if_neg notStop, if_neg notDaa]
    by_cases undefined : f.opcode ∈ undefinedOpcodes
    · rw [if_pos undefined, decide_eq_true (same.mp undefined)]
      rfl
    · rw [if_neg undefined, decide_eq_false (mt same.mpr undefined)]
      rfl

namespace Machine

/-- The records of the next step. -/
def records (m : Machine) : List Record :=
  .traced m.instructionCount m.opcode m.regs ::
    ((Instruction.decode m.opcode).notice? m.regs.pc).toList

/-- The records of all the steps of a run that ended with a report, and of its end. -/
def recordsOf (m : Machine) (dumpState : Bool) (report : Report) : List Record :=
  let left := step^[report.outcome.steps] m
  ((List.range report.outcome.steps).flatMap fun i => (step^[i] m).records) ++
    .finished report.outcome left.regs.pc :: (if dumpState then [.reported report] else []) ++
    left.lastDiagnostic.toList.map .leftOver

/-- The report on a machine that has taken a number of steps. -/
def reportAfter (m : Machine) (n : ℕ) : Report :=
  let left := step^[n] m
  { outcome := { steps := n, reason := if left.running then .budgetExhausted else .halted }
    registers := left.regs
    interruptsEnabled := left.interruptsEnabled }

private theorem told_succ (m : Machine) (n : ℕ) :
    m.told (n + 1) = m.told n ++
      Line.traced n (step^[n] m).opcode (step^[n] m).regs :: Line.notices (step^[n] m).fetch := by
  rw [told, List.range_succ, List.flatMap_append, List.flatMap_singleton]
  rfl

/-- A machine that has taken no step yet counts its steps from 0. -/
theorem lines_iterate {m : Machine} (fresh : m.instructionCount = 0) (n : ℕ) :
    ((List.range n).flatMap fun i => (step^[i] m).records).map Record.line = m.told n := by
  induction n with
  | zero => rfl
  | succ n ih =>
    have count : (step^[n] m).instructionCount = .ofNat n := by
      rw [instructionCount_iterate, fresh, UInt64.zero_add]
    rw [List.range_succ, List.flatMap_append, List.map_append, ih, told_succ,
      List.flatMap_singleton, records, List.map_cons, count, line_traced]
    have notices := Instruction.notice?_decode (step^[n] m).fetch
    exact congrArg (m.told n ++ Line.traced n _ _ :: ·) notices

/-- The last warning or error is the one the machine remembers. -/
theorem lastDiagnostic_iterate {m : Machine} (fresh : m.lastDiagnostic = none) (n : ℕ) :
    (step^[n] m).lastDiagnostic = (m.lastComplaint? n).map Fetch.diagnostic := by
  have complaints : (m.fetches n).filter Line.complains =
      (m.fetches n).filter (·.opcode ∈ reportedOpcodes) :=
    List.filter_congr fun f _ => Line.complains_eq f
  have remembered :=
    latch_iterate lastDiagnostic _ (fun f => some f.diagnostic) lastDiagnostic_step m n
  rw [remembered, fresh, lastComplaint?, complaints]
  cases ((m.fetches n).filter (·.opcode ∈ reportedOpcodes)).getLast? <;> rfl

end Machine

/-! ## What a run tells -/

namespace Session

private theorem log_step (s : Session) : s.step.log = s.log.emitAll s.machine.records := by
  simp only [step, execute, Machine.records, Machine.normalize_eq]
  -- the address in the notice is the one the opcode was fetched from: a tick leaves it alone
  have fetched : s.machine.tick.regs.pc = s.machine.regs.pc := rfl
  rw [fetched]
  cases (Instruction.decode s.machine.opcode).notice? s.machine.regs.pc <;> rfl

private theorem log_iterate (s : Session) (n : ℕ) :
    (step^[n] s).log =
      s.log.emitAll ((List.range n).flatMap fun i => (Machine.step^[i] s.machine).records) := by
  induction n with
  | zero => rfl
  | succ n ih =>
    rw [Function.iterate_succ_apply', log_step, ih, machine_iterate, List.range_succ,
      List.flatMap_append, Log.emitAll_append, List.flatMap_singleton]

/-- The log of a run that has ended holds what its steps told and what was told about its end. -/
theorem close_endedAfter (s : Session) (n : ℕ) (dumpState : Bool) :
    (s.endedAfter n).close dumpState =
      s.log.emitAll (s.machine.recordsOf dumpState (s.endedAfter n).report) := by
  have logged : (s.endedAfter n).session.log =
      (step^[n] s).log.emit (.finished (s.endedAfter n).outcome (step^[n] s).machine.regs.pc) := rfl
  have steps : (s.endedAfter n).report.outcome.steps = n := rfl
  rw [Machine.recordsOf, steps, Log.emitAll_append, Log.emitAll_append, Ended.close, logged,
    machine_endedAfter, log_iterate, machine_iterate]
  cases dumpState <;> cases (Machine.step^[n] s.machine).lastDiagnostic <;> rfl

/-- What is in the log beforehand makes no difference to where a run ends. -/
theorem run_withLog {s t : Session} (same : t.machine = s.machine) {budget : Option ℕ} {e : Ended}
    (ended : s.run budget = some e) :
    t.run budget = some (t.endedAfter e.outcome.steps) := by
  have yields := yield_run_eq (congrArg Machine.core same) (congrArg Machine.running same) budget
  rw [ended, Option.map_some] at yields
  obtain ⟨f, ended', yield⟩ := Option.map_eq_some_iff.mp yields
  have steps : f.outcome.steps = e.outcome.steps := congrArg (fun y => y.1.steps) yield
  rw [ended', ← steps, ← eq_endedAfter_of_run ended']

theorem report_endedAfter (s : Session) (n : ℕ) :
    (s.endedAfter n).report = s.machine.reportAfter n := by
  simp only [Ended.report, endedAfter, machine_iterate, Machine.reportAfter]

end Session

/-- The records of a run are shown as the transcript. -/
theorem map_line_recordsOf (image : ByteArray) (dumpState : Bool) (report : Report) :
    (.started image.size :: (Machine.ofImage image).recordsOf dumpState report).map Record.line =
      transcript image dumpState report := by
  have fresh : (Machine.ofImage image).instructionCount = 0 := rfl
  have unreported : (Machine.ofImage image).lastDiagnostic = none := rfl
  have dumped : (if dumpState then [Record.reported report] else []).map Record.line =
      if dumpState then [Line.reported report] else [] := by
    cases dumpState with
    | false => rfl
    | true => exact congrArg ([·]) (line_reported report)
  rw [transcript, Machine.recordsOf, Machine.lastDiagnostic_iterate unreported, List.map_cons,
    List.map_append, List.map_append, Machine.lines_iterate fresh, List.map_cons, dumped,
    lines_leftOver, line_started, line_finished]
  rfl

/-- What is logged under a threshold is what the run has to tell and the threshold lets through. -/
theorem Config.run_eq_emitAll {config : Config} {image : ByteArray} {report : Report}
    {first full : Log} (ended : config.run image first = some (report, full)) (log : Log) :
    config.run image log = some (report, log.emitAll
      (.started image.size :: (Machine.ofImage image).recordsOf config.dumpState report)) := by
  let fresh (log : Log) : Session :=
    { machine := .ofImage image, log := log.emit (.started image.size) }
  obtain ⟨e, ran, yield⟩ := Option.map_eq_some_iff.mp ended
  cases yield
  have same : (fresh log).machine = (fresh first).machine := rfl
  have again := Session.run_withLog same ran
  have reported : ((fresh log).endedAfter e.outcome.steps).report = e.report := by
    conv_rhs => rw [Session.eq_endedAfter_of_run ran]
    rw [Session.report_endedAfter, Session.report_endedAfter, same]
  unfold Config.run
  refine (congrArg (Option.map _) again).trans ?_
  rw [Option.map_some, Session.close_endedAfter, reported]
  rfl

private theorem Log.keeps_eq (level : Option Severity) (s : Severity) :
    Log.keeps { threshold := level } s = decide (s ∈ Severity.passing level) := by
  rcases level with _ | level
  · rfl
  · cases level <;> cases s <;> rfl

/-- **The log is a transcript of the run.** At the trace level its lines are the transcript of what the
run took from its image and reported, and where the steps of a run can be counted at all, the numbers in
it are exact. At any other level, or at none, the run reports the same and logs those of the same
lines that are severe enough. -/
theorem log_eq_transcript (config : Config) (image : ByteArray) (report : Report) (log : Log)
    (ended : config.run image { threshold := some .trace } = some (report, log)) :
    log.lines = transcript image config.dumpState report ∧
    ((∀ budget ∈ config.maxSteps, budget < 2 ^ 64) →
      ∀ i < report.outcome.steps, i % 2 ^ 64 = i) ∧
    ∀ level : Option Severity, ∃ less,
      config.run image { threshold := level } = some (report, less) ∧
      less.lines = log.lines.filter fun line => line.1 ∈ Severity.passing level := by
  let records :=
    .started image.size :: (Machine.ofImage image).recordsOf config.dumpState report
  have logged : ∀ level : Option Severity,
      config.run image { threshold := level } =
        some (report, Log.emitAll { threshold := level } records) :=
    fun level => Config.run_eq_emitAll ended { threshold := level }
  have kept : ∀ level : Option Severity,
      (Log.emitAll { threshold := level } records).lines =
        (transcript image config.dumpState report).filter
          fun line => line.1 ∈ Severity.passing level := by
    intro level
    rw [Log.lines, Log.records_emitAll, ← map_line_recordsOf, List.filter_map]
    simp only [Log.keeps_eq]
    rfl
  have whole : log.lines = transcript image config.dumpState report := by
    obtain rfl : Log.emitAll { threshold := some .trace } records = log :=
      (Prod.mk.inj (Option.some.inj ((logged (some .trace)).symm.trans ended))).2
    rw [kept, List.filter_eq_self]
    intro line member
    cases line.1 <;> decide
  refine ⟨whole, ?_, ?_⟩
  · intro counted i before
    obtain ⟨e, ran, yield⟩ := Option.map_eq_some_iff.mp ended
    cases yield
    exact Nat.mod_eq_of_lt (before.trans (Session.steps_lt_of_run ran counted))
  · intro level
    refine ⟨_, logged level, ?_⟩
    rw [whole, kept]

/-- An opcode without a meaning and then a stop. -/
def undefinedThenStop : ByteArray :=
  bootPage ++ ⟨#[0xD3, 0x10]⟩

namespace Machine

private theorem opcode_undefinedThenStop : (ofImage undefinedThenStop).opcode = 0xD3 :=
  opcode_undefinedThen 0x10

private theorem step_undefinedThenStop :
    (ofImage undefinedThenStop).step =
      { ofImage undefinedThenStop with
        regs.pc := 0x0101
        instructionCount := 1
        lastDiagnostic := some (.illegal 0xD3 0x0100) } :=
  step_undefinedThen 0x10

private theorem opcode_step_undefinedThenStop : (ofImage undefinedThenStop).step.opcode = 0x10 :=
  opcode_step_undefinedThen 0x10

private theorem fetch_undefinedThenStop : (ofImage undefinedThenStop).fetch = ⟨0x0100, 0xD3⟩ := by
  rw [fetch, opcode_undefinedThenStop]
  rfl

private theorem regs_step_undefinedThenStop :
    (ofImage undefinedThenStop).step.regs = { Registers.boot with pc := 0x0101 } := by
  rw [step_undefinedThenStop]
  rfl

private theorem fetch_step_undefinedThenStop :
    (ofImage undefinedThenStop).step.fetch = ⟨0x0101, 0x10⟩ := by
  rw [fetch, opcode_step_undefinedThenStop, regs_step_undefinedThenStop]

private theorem told_undefinedThenStop :
    (ofImage undefinedThenStop).told 2 =
      [(.trace, "0) PC=0100 SP=FFFE I=D3 AF=01B0 BC=0013 DE=00D8 HL=014D"),
       (.warn, "illegal opcode D3 at PC=0x0100"),
       (.trace, "1) PC=0101 SP=FFFE I=10 AF=01B0 BC=0013 DE=00D8 HL=014D"),
       (.debug, "STOP at PC=0x0101; halting")] := by
  rw [told_succ, told_succ, Function.iterate_one, Function.iterate_zero_apply,
    fetch_undefinedThenStop, fetch_step_undefinedThenStop, opcode_undefinedThenStop,
    opcode_step_undefinedThenStop, regs_step_undefinedThenStop]
  rfl

private theorem lastComplaint?_undefinedThenStop :
    (ofImage undefinedThenStop).lastComplaint? 2 = some ⟨0x0100, 0xD3⟩ := by
  rw [lastComplaint?, fetches_succ, fetches_succ, Function.iterate_one, Function.iterate_zero_apply,
    fetch_undefinedThenStop, fetch_step_undefinedThenStop]
  rfl

private theorem iterate_two_undefinedThenStop :
    step^[2] (ofImage undefinedThenStop) =
      { ofImage undefinedThenStop with
        regs.pc := 0x0102
        running := false
        instructionCount := 2
        lastDiagnostic := some (.illegal 0xD3 0x0100) } := by
  rw [Function.iterate_succ_apply', Function.iterate_one, step_eq, opcode_step_undefinedThenStop,
    step_undefinedThenStop]
  rfl

/-- What the run over an opcode without a meaning and a stop leaves behind. -/
theorem reportAfter_undefinedThenStop :
    (ofImage undefinedThenStop).reportAfter 2 =
      ⟨⟨2, .halted⟩, { Registers.boot with pc := 0x0102 }, false⟩ := by
  rw [reportAfter, iterate_two_undefinedThenStop]
  rfl

theorem haltingTime_undefinedThenStop : (ofImage undefinedThenStop).haltingTime = (2 : ℕ) := by
  apply haltingTime_eq_two rfl
  · rw [opcode_undefinedThenStop]
    decide
  · rw [opcode_step_undefinedThenStop]
    decide

end Machine

/-- The run is told in eight lines, of which a log of warnings keeps one. -/
theorem log_eq_transcript_undefinedThenStop :
    ∃ report log less, Config.run ⟨none, true⟩ undefinedThenStop { threshold := some .trace } =
        some (report, log) ∧
      Config.run ⟨none, true⟩ undefinedThenStop { threshold := some .warn } =
        some (report, less) ∧
      report.outcome = ⟨2, .halted⟩ ∧
      less.lines = [(.warn, "illegal opcode D3 at PC=0x0100")] ∧
      log.lines =
        [(.info, "Game Boy interpreter init: 258 byte image"),
         (.trace, "0) PC=0100 SP=FFFE I=D3 AF=01B0 BC=0013 DE=00D8 HL=014D"),
         (.warn, "illegal opcode D3 at PC=0x0100"),
         (.trace, "1) PC=0101 SP=FFFE I=10 AF=01B0 BC=0013 DE=00D8 HL=014D"),
         (.debug, "STOP at PC=0x0101; halting"),
         (.info, "halted after 2 steps at PC=0x0102"),
         (.info, "halted after 2 steps: PC=0x0102 SP=0xFFFE AF=0x01B0 BC=0x0013 DE=0x00D8 " ++
            "HL=0x014D IME=false"),
         (.info, "last diagnostic: Illegal \x7b opcode: 211, pc: 256 \x7d")] := by
  let s : Session :=
    { machine := .ofImage undefinedThenStop
      log := Log.emit { threshold := some .trace } (.started undefinedThenStop.size) }
  have time : s.machine.haltingTime = (2 : ℕ) := Machine.haltingTime_undefinedThenStop
  have ran : s.run none = some (s.endedAfter 2) := Session.run_none_eq time (by decide)
  have ended : Config.run ⟨none, true⟩ undefinedThenStop { threshold := some .trace } =
      some ((s.endedAfter 2).report, (s.endedAfter 2).close true) := by
    unfold Config.run
    exact congrArg (Option.map _) ran
  have report : (s.endedAfter 2).report =
      ⟨⟨2, .halted⟩, { Registers.boot with pc := 0x0102 }, false⟩ :=
    (s.report_endedAfter 2).trans Machine.reportAfter_undefinedThenStop
  have size : undefinedThenStop.size = 258 := size_undefinedThen 0x10
  have pc : (Machine.step^[2] (.ofImage undefinedThenStop)).regs.pc = 0x0102 :=
    congrArg (·.registers.pc) Machine.reportAfter_undefinedThenStop
  obtain ⟨lines, -, levels⟩ := log_eq_transcript _ _ _ _ ended
  obtain ⟨less, warned, kept⟩ := levels (some .warn)
  rw [report, transcript, size, Machine.told_undefinedThenStop, pc,
    Machine.lastComplaint?_undefinedThenStop] at lines
  refine ⟨_, _, less, ended, warned, congrArg Report.outcome report, ?_, ?_⟩
  · rw [kept, lines]
    rfl
  · rw [lines]
    rfl

end Sm83
