import Sm83.Proofs.ArgumentGrammar
import Sm83.Proofs.BootImage

/-! What the command line answers. Refused arguments come first, then a missing file, and whatever else
there is ends in exit code 0 if it ends at all: the answer is one line, the report on the state that the
machine is in when it halts, or when it has taken the steps it may take (`respond_eq_report`). -/
namespace Sm83

/-! ## Reports -/

/-- A run over an image reports on the state its steps lead to. -/
theorem Config.report_run_eq_some_iff {config : Config} {image : ByteArray} {log : Log}
    {report : Report} (counted : ∀ b ∈ config.maxSteps, b < 2 ^ 64) :
    (config.run image log).map Prod.fst = some report ↔
      ∃ k : ℕ, (k : ℕ∞) = min (Machine.ofImage image).haltingTime (Session.allowed config.maxSteps) ∧
        k < 2 ^ 64 ∧ report = (Machine.ofImage image).reportAfter k := by
  let fresh : Session := { machine := .ofImage image, log := log.emit (.started image.size) }
  have reported : (config.run image log).map Prod.fst =
      (fresh.run config.maxSteps).map Session.Ended.report := by
    unfold Config.run
    rw [Option.map_map]
    rfl
  rw [reported, Option.map_eq_some_iff]
  simp only [Session.run_eq_some_iff counted]
  constructor
  · rintro ⟨e, ⟨k, least, short, rfl⟩, rfl⟩
    exact ⟨k, least, short, fresh.report_endedAfter k⟩
  · rintro ⟨k, least, short, rfl⟩
    exact ⟨fresh.endedAfter k, ⟨k, least, short, rfl⟩, fresh.report_endedAfter k⟩

/-! ## Lines -/

namespace Text

/-- A text without a line break. -/
def Unbroken (text : String) : Prop :=
  '\n' ∉ text.toList

instance : DecidablePred Unbroken := fun text =>
  inferInstanceAs (Decidable ('\n' ∉ text.toList))

private theorem unbroken_append {first second : String} :
    Unbroken (first ++ second) ↔ Unbroken first ∧ Unbroken second := by
  rw [Unbroken, String.toList_append, List.mem_append, not_or, Unbroken, Unbroken]

private theorem unbroken_toString (n : ℕ) : Unbroken (toString n) := by
  intro member
  have digits : '\n' ∈ Nat.toDigits 10 n := Nat.toList_repr ▸ member
  exact absurd (Nat.isDigit_of_mem_toDigits (by decide) (by decide) digits) (by decide)

private theorem newline_notMem_digits (width n : ℕ) : '\n' ∉ Hex.digits width n := by
  have digit : ∀ k < 16, '\n' ≠ Hex.digit k := by decide
  induction width generalizing n with
  | zero => exact List.not_mem_nil
  | succ width ih =>
    rw [Hex.digits, List.mem_append, List.mem_singleton, not_or]
    exact ⟨ih (n / 16), digit _ (Nat.mod_lt n (by decide))⟩

private theorem unbroken_hex (w : Word) : Unbroken w.hex := by
  rw [Unbroken, Word.hex, String.toList_ofList]
  exact newline_notMem_digits 4 w.toNat

end Text

/-- A report is written on one line. -/
theorem Report.unbroken_text (report : Report) : Text.Unbroken report.text := by
  have reason : ∀ r : StopReason, Text.Unbroken r.text := by
    intro r
    cases r <;> decide
  have latch : ∀ b : Bool, Text.Unbroken (toString b) := by
    intro b
    cases b <;> decide
  delta text
  simp only [Text.unbroken_append, reason, latch, Text.unbroken_toString, Text.unbroken_hex,
    and_true, true_and]
  decide

/-! ## Answers -/

namespace CommandLine

/-- Every budget that can be asked for can be counted. -/
theorem Accepted.counted {args : List String} {asked : Arguments} (accepted : Accepted args asked) :
    ∀ b ∈ asked.config.maxSteps, b < 2 ^ 64 := by
  cases accepted with
  | path path =>
    intro b given
    rw [← Option.some.inj given]
    decide
  | steps path text rest n numeral =>
    intro b given
    dsimp only at given
    split at given
    · cases given
    · rw [← Option.some.inj given]
      exact numeral.fits

/-- A file that is there is answered by the report on the state that its run ends in, if it ends. -/
theorem respond_eq_some_iff {args : List String} {asked : Arguments} {image : ByteArray}
    {r : Response} (accepted : Accepted args asked) :
    respond args (some image) = some r ↔
      ∃ k : ℕ, (k : ℕ∞) =
          min (Machine.ofImage image).haltingTime (Session.allowed asked.config.maxSteps) ∧
        k < 2 ^ 64 ∧
        r = { exitCode := 0, stdout := ((Machine.ofImage image).reportAfter k).text ++ "\n" } := by
  obtain ⟨log, answered⟩ := respond_of_parse (parse_of_accepted accepted) image
  rw [answered, Option.map_eq_some_iff]
  simp only [Config.report_run_eq_some_iff accepted.counted]
  constructor
  · rintro ⟨report, ⟨k, least, short, rfl⟩, rfl⟩
    exact ⟨k, least, short, rfl⟩
  · rintro ⟨k, least, short, rfl⟩
    exact ⟨_, ⟨k, least, short, rfl⟩, rfl⟩

/-- On a budget there always is an answer. -/
theorem exists_respond {args : List String} {asked : Arguments} (accepted : Accepted args asked)
    (bounded : asked.config.maxSteps ≠ none) (image : ByteArray) :
    ∃ r, respond args (some image) = some r ∧ r.exitCode = 0 := by
  obtain ⟨budget, given⟩ := Option.ne_none_iff_exists'.mp bounded
  let fresh : Session := { machine := .ofImage image }
  obtain ⟨n, least, -⟩ := fresh.runFor_eq_endedAfter budget
  have within : n ≤ budget := Nat.cast_le.mp (least ▸ min_le_right _ _)
  have short : n < 2 ^ 64 := within.trans_lt (accepted.counted budget given)
  refine ⟨_, (respond_eq_some_iff accepted).mpr ⟨n, ?_, short, rfl⟩, rfl⟩
  rw [given]
  exact least

/-- A file that is not there is the cause unless another one is named. -/
private theorem message_missing (path : String) :
    LoadError.message { path } =
      "failed to read image '" ++ path ++ "': No such file or directory (os error 2)" := by
  have cause : "': " ++ "No such file or directory (os error 2)" =
      "': No such file or directory (os error 2)" := by decide
  delta LoadError.message
  rw [String.append_assoc, cause]

/-- **The command line answers with the report, or says why it cannot.** Refused arguments are answered
by their message and exit code 2, whether or not there is a file, and then a missing file by a message
that names it and exit code 1. Otherwise there is an answer exactly if the run ends behind a number of
steps that can be counted, and always on a budget. Its exit code is 0 however the run ended, and it is
one line: the report on the state that the steps lead to, from what booting makes of the bytes that fit
into memory. -/
theorem respond_eq_report (args : List String) (contents : Option ByteArray) :
    (∀ e, Arguments.parse args = .error e →
      respond args contents = some { exitCode := 2, stdout := "", stderr := e.message ++ "\n" }) ∧
    ∀ asked, Arguments.parse args = .ok asked → Accepted args asked ∧
      (contents = none → respond args contents = some
        { exitCode := 1
          stdout := ""
          stderr := "failed to read image '" ++ asked.path ++
            "': No such file or directory (os error 2)" ++ "\n" }) ∧
      ∀ image, contents = some image →
        let fresh := Machine.ofImage (image.extract 0 65536)
        (∀ r, respond args contents = some r ↔
          ∃ k : ℕ, (k : ℕ∞) = min fresh.haltingTime (Session.allowed asked.config.maxSteps) ∧
            k < 2 ^ 64 ∧
            r = { exitCode := 0, stdout := (fresh.reportAfter k).text ++ "\n", stderr := "" }) ∧
        (asked.config.maxSteps ≠ none → ∃ r, respond args contents = some r ∧ r.exitCode = 0) ∧
        ∀ k, Text.Unbroken (fresh.reportAfter k).text := by
  constructor
  · intro e refused
    simp only [respond, refused]
  · intro asked parsed
    have accepted := parse_eq_ok_iff.mp parsed
    refine ⟨accepted, ?_, ?_⟩
    · rintro rfl
      simp only [respond, parsed, loadImage, message_missing]
    · rintro image rfl fresh
      have cut : fresh = Machine.ofImage image :=
        Machine.ofImage_eq_iff.mpr (interchangeable_extract image)
      rw [cut]
      exact ⟨fun _ => respond_eq_some_iff accepted, fun bounded => exists_respond accepted bounded image,
        fun k => Report.unbroken_text _⟩

theorem respond_eq_report_undefinedThenStop :
    respond ["game.gb", "many"] none = some
      { exitCode := 2
        stderr := "invalid max-steps 'many'; expected an integer: invalid digit found in string\n" } ∧
    respond ["game.gb", "+0"] none = some
      { exitCode := 1
        stderr := "failed to read image 'game.gb': No such file or directory (os error 2)\n" } ∧
    respond ["game.gb", "+0"] (some undefinedThenStop) = some
      { exitCode := 0
        stdout := "halted after 2 steps: PC=0x0102 SP=0xFFFE AF=0x01B0 BC=0x0013 DE=0x00D8 " ++
          "HL=0x014D IME=false\n" } := by
  have parsed : Arguments.parse ["game.gb", "+0"] = .ok ⟨"game.gb", ⟨none, true⟩⟩ := rfl
  have refused : Arguments.parse ["game.gb", "many"] =
      .error (.invalidMaxSteps "many" .invalidDigit) := rfl
  refine ⟨(respond_eq_report _ none).1 _ refused, ?_, ?_⟩
  · exact ((respond_eq_report _ none).2 _ parsed).2.1 rfl
  · obtain ⟨answered, -, -⟩ := ((respond_eq_report _ _).2 _ parsed).2.2 undefinedThenStop rfl
    have cut : Machine.ofImage (undefinedThenStop.extract 0 65536) =
        Machine.ofImage undefinedThenStop :=
      Machine.ofImage_eq_iff.mpr (interchangeable_extract _)
    have time := Machine.haltingTime_undefinedThenStop
    rw [cut] at answered
    refine (answered _).mpr ⟨2, ?_, by decide, ?_⟩
    · rw [time]
      exact (min_eq_left le_top).symm
    · rw [Machine.reportAfter_undefinedThenStop]
      rfl

end CommandLine

end Sm83
