import Mathlib.Algebra.Group.Nat.Defs
import Mathlib.Data.List.TakeWhile
import Sm83.CommandLine.Arguments

/-! Which arguments are accepted. A number of steps is one digit or more behind at most one plus sign,
as long as the digits stand for a number below 2^64. A text that is no such numeral is refused for the
size of the number it begins with, if that is too large, and for the character that stops the digits
otherwise: whichever comes first from the left. Reading arguments accepts and refuses exactly these
(`parse_iff_grammar`). -/
namespace Sm83

namespace Text.Numeral

/-! ## Numerals -/

/-- What stands behind the plus sign of a text, if it has one. -/
def unsigned : List Char → List Char
  | '+' :: rest => rest
  | text => text

/-- The number that the digits of a text stand for, up to the first character that is none. -/
def leadingValue (text : List Char) : ℕ :=
  Nat.ofDigitChars 10 ((unsigned text).takeWhile Char.isDigit) 0

/-- A text is a numeral of a number. -/
structure Denotes (text : List Char) (n : ℕ) : Prop where
  nonempty : unsigned text ≠ []
  digits : ∀ c ∈ unsigned text, c.isDigit = true
  value : n = Nat.ofDigitChars 10 (unsigned text) 0
  fits : n < 2 ^ 64

/-- What is wrong with a text that is no numeral. -/
def fault (text : List Char) : Error :=
  if text = [] then .empty
  else if 2 ^ 64 ≤ leadingValue text then .tooLarge
  else .invalidDigit

private theorem digit?_eq (c : Char) :
    digit? c = if c.isDigit then some (c.toNat - '0'.toNat) else none := by
  have same : ('0' ≤ c ∧ c ≤ '9') ↔ c.isDigit = true := by
    rw [Char.isDigit_iff_toNat]
    exact Iff.rfl
  simp only [digit?, same]

/-- More digits make no smaller number. -/
private theorem le_ofDigitChars (n : ℕ) (digits : List Char) :
    n ≤ Nat.ofDigitChars 10 digits n := by
  rw [Nat.ofDigitChars_eq_ofDigitChars_zero]
  have positive : 1 ≤ 10 ^ digits.length := Nat.one_le_pow _ _ (by decide)
  calc n = 1 * n := (Nat.one_mul n).symm
    _ ≤ 10 ^ digits.length * n := Nat.mul_le_mul_right n positive
    _ ≤ 10 ^ digits.length * n + Nat.ofDigitChars 10 digits 0 := Nat.le_add_right _ _

/-- Digits are read until the number is too large or a character is no digit. -/
theorem readDigits_eq {n : ℕ} (text : List Char) (fits : n < bound) :
    readDigits n text =
      if bound ≤ Nat.ofDigitChars 10 (text.takeWhile Char.isDigit) n then .error .tooLarge
      else if text.all Char.isDigit then .ok (Nat.ofDigitChars 10 text n)
      else .error .invalidDigit := by
  induction text generalizing n with
  | nil => simp [readDigits, fits]
  | cons c rest ih =>
    by_cases digit : c.isDigit
    · rw [List.takeWhile_cons_of_pos digit, Nat.ofDigitChars_cons, Nat.ofDigitChars_cons, readDigits,
        digit?_eq, if_pos digit]
      simp only [List.all_cons, digit, Bool.true_and]
      split
      · next fits => exact ih fits
      · next large =>
        have larger := le_ofDigitChars (10 * n + (c.toNat - '0'.toNat)) (rest.takeWhile Char.isDigit)
        rw [if_pos (Nat.le_trans (Nat.not_lt.mp large) larger)]
    · rw [List.takeWhile_cons_of_neg digit, Nat.ofDigitChars_nil, readDigits, digit?_eq,
        if_neg digit, if_neg (Nat.not_le.mpr fits)]
      have stopped : ¬ (c :: rest).all Char.isDigit :=
        fun all => digit (List.all_eq_true.mp all c List.mem_cons_self)
      rw [if_neg stopped]

private theorem read_eq (text : List Char) :
    read text =
      if text = [] then .error .empty
      else if unsigned text = [] then .error .invalidDigit
      else readDigits 0 (unsigned text) := by
  fun_cases read text with
  | case1 => rfl
  | case2 => rfl
  | case3 digits nonempty =>
    rw [if_neg (List.cons_ne_nil _ _)]
    exact (if_neg nonempty).symm
  | case4 text nonempty lone signed =>
    have plain : unsigned text = text := by
      unfold unsigned
      split
      · next rest => exact absurd rfl (signed rest)
      · rfl
    rw [if_neg nonempty, plain, if_neg nonempty]

private theorem read_of_denotes {text : List Char} {n : ℕ} (numeral : Denotes text n) :
    read text = .ok n := by
  have nonempty : text ≠ [] := by
    rintro rfl
    exact numeral.nonempty rfl
  have whole : (unsigned text).takeWhile Char.isDigit = unsigned text :=
    List.takeWhile_eq_self_iff.mpr numeral.digits
  have fits : ¬ bound ≤ n := Nat.not_le.mpr numeral.fits
  rw [read_eq, if_neg nonempty, if_neg numeral.nonempty, readDigits_eq _ (by decide), whole,
    ← numeral.value, if_neg fits, if_pos (List.all_eq_true.mpr numeral.digits)]

private theorem read_of_not_denotes {text : List Char} (other : ∀ n, ¬ Denotes text n) :
    read text = .error (fault text) := by
  rw [read_eq, fault]
  by_cases empty : text = []
  · rw [if_pos empty, if_pos empty]
  · rw [if_neg empty, if_neg empty]
    by_cases bare : unsigned text = []
    · have small : ¬ 2 ^ 64 ≤ leadingValue text := by
        rw [leadingValue, bare]
        decide
      rw [if_pos bare, if_neg small]
    · rw [if_neg bare, readDigits_eq _ (by decide)]
      by_cases large : 2 ^ 64 ≤ leadingValue text
      · rw [if_pos large]
        exact if_pos large
      · have stopped : ¬ (unsigned text).all Char.isDigit := by
          intro all
          have digits := List.all_eq_true.mp all
          rw [leadingValue, List.takeWhile_eq_self_iff.mpr digits] at large
          exact other _ ⟨bare, digits, rfl, Nat.not_le.mp large⟩
        rw [if_neg large, if_neg stopped]
        exact if_neg large

/-- A number written in decimal is a numeral of it. -/
theorem denotes_toString {n : ℕ} (fits : n < 2 ^ 64) : Denotes (toString n).toList n := by
  have written : (toString n).toList = Nat.toDigits 10 n := Nat.toList_repr
  have digits : ∀ c ∈ Nat.toDigits 10 n, c.isDigit = true :=
    fun c member => Nat.isDigit_of_mem_toDigits (by decide) (by decide) member
  have unsigned : unsigned (Nat.toDigits 10 n) = Nat.toDigits 10 n := by
    unfold Numeral.unsigned
    split
    · next rest plus => exact absurd (digits '+' (plus ▸ List.mem_cons_self)) (by decide)
    · rfl
  rw [written]
  refine ⟨?_, ?_, ?_, fits⟩
  · rw [unsigned]
    exact Nat.toDigits_ne_nil
  · rw [unsigned]
    exact digits
  · rw [unsigned, Nat.ofDigitChars_ten_toDigits]

end Text.Numeral

namespace CommandLine

/-! ## Arguments -/

/-- Arguments that are accepted, and what they ask for. Arguments behind the second do not matter. -/
inductive Accepted : List String → Arguments → Prop
  /-- A path alone asks for the budget that is given where none is. -/
  | path (path : String) :
    Accepted [path] { path, config := { maxSteps := some 10000000, dumpState := true } }
  /-- A number of steps is the budget, and zero stands for no bound. -/
  | steps (path text : String) (rest : List String) (n : ℕ)
    (numeral : Text.Numeral.Denotes text.toList n) :
    Accepted (path :: text :: rest)
      { path, config := { maxSteps := if n = 0 then none else some n, dumpState := true } }

/-- Arguments that are refused, and why. -/
inductive Refused : List String → ArgumentError → Prop
  | nothing : Refused [] .missingPath
  | steps (path text : String) (rest : List String)
    (other : ∀ n, ¬ Text.Numeral.Denotes text.toList n) :
    Refused (path :: text :: rest) (.invalidMaxSteps text (Text.Numeral.fault text.toList))

theorem parse_of_accepted {args : List String} {asked : Arguments} (accepted : Accepted args asked) :
    Arguments.parse args = .ok asked := by
  cases accepted with
  | path path => rfl
  | steps path text rest n numeral =>
    simp only [Arguments.parse, Text.Numeral.read_of_denotes numeral]

private theorem parse_of_refused {args : List String} {e : ArgumentError}
    (refused : Refused args e) : Arguments.parse args = .error e := by
  cases refused with
  | nothing => rfl
  | steps path text rest other =>
    simp only [Arguments.parse, Text.Numeral.read_of_not_denotes other]

/-- Arguments are accepted or refused. -/
theorem accepted_or_refused (args : List String) :
    (∃ asked, Accepted args asked) ∨ ∃ e, Refused args e := by
  match args with
  | [] => exact .inr ⟨_, .nothing⟩
  | [path] => exact .inl ⟨_, .path path⟩
  | path :: text :: rest =>
    by_cases numeral : ∃ n, Text.Numeral.Denotes text.toList n
    · obtain ⟨n, numeral⟩ := numeral
      exact .inl ⟨_, .steps path text rest n numeral⟩
    · exact .inr ⟨_, .steps path text rest (not_exists.mp numeral)⟩

theorem parse_eq_ok_iff {args : List String} {asked : Arguments} :
    Arguments.parse args = .ok asked ↔ Accepted args asked := by
  refine ⟨?_, parse_of_accepted⟩
  intro parsed
  rcases accepted_or_refused args with ⟨other, accepted⟩ | ⟨e, refused⟩
  · rw [parse_of_accepted accepted] at parsed
    exact Except.ok.inj parsed ▸ accepted
  · rw [parse_of_refused refused] at parsed
    cases parsed

private theorem parse_eq_error_iff {args : List String} {e : ArgumentError} :
    Arguments.parse args = .error e ↔ Refused args e := by
  refine ⟨?_, parse_of_refused⟩
  intro parsed
  rcases accepted_or_refused args with ⟨asked, accepted⟩ | ⟨other, refused⟩
  · rw [parse_of_accepted accepted] at parsed
    cases parsed
  · rw [parse_of_refused refused] at parsed
    exact Except.error.inj parsed ▸ refused

/-- **Arguments are accepted exactly by their grammar.** What is accepted and what is refused, and what
comes of it, is as the grammar says. Every positive number below 2^64, written in decimal, is read
back as the budget, and the refusal of a text quotes it and names the cause. -/
theorem parse_iff_grammar (args : List String) :
    (∀ asked, Arguments.parse args = .ok asked ↔ Accepted args asked) ∧
    (∀ e, Arguments.parse args = .error e ↔ Refused args e) ∧
    (∀ (path : String) (n : ℕ) (rest : List String), 1 ≤ n → n < 2 ^ 64 →
      Arguments.parse (path :: toString n :: rest) =
        .ok { path, config := { maxSteps := some n, dumpState := true } }) ∧
    ∀ text cause, (ArgumentError.invalidMaxSteps text cause).message =
      "invalid max-steps '" ++ text ++ "'; expected an integer: " ++ cause.message := by
  refine ⟨fun _ => parse_eq_ok_iff, fun _ => parse_eq_error_iff, ?_, fun _ _ => rfl⟩
  intro path n rest positive fits
  have accepted := Accepted.steps path (toString n) rest n (Text.Numeral.denotes_toString fits)
  rw [if_neg (Nat.one_le_iff_ne_zero.mp positive)] at accepted
  exact parse_of_accepted accepted

/-- At the bound it is the first fault from the left that counts. -/
theorem parse_iff_grammar_atBound :
    1 ≤ 2 ^ 64 - 1 ∧ 2 ^ 64 - 1 < 2 ^ 64 ∧
    Arguments.parse ["game.gb", toString (2 ^ 64 - 1), "behind"] =
      .ok ⟨"game.gb", ⟨some (2 ^ 64 - 1), true⟩⟩ ∧
    Arguments.parse ["game.gb", "+000"] = .ok ⟨"game.gb", ⟨none, true⟩⟩ ∧
    Arguments.parse ["game.gb", "18446744073709551615x"] =
      .error (.invalidMaxSteps "18446744073709551615x" .invalidDigit) ∧
    Arguments.parse ["game.gb", "18446744073709551616x"] =
      .error (.invalidMaxSteps "18446744073709551616x" .tooLarge) := by
  have accepts := fun args asked => (parse_iff_grammar args).1 asked
  have refuses := fun args e => (parse_iff_grammar args).2.1 e
  obtain ⟨-, -, reads, -⟩ := parse_iff_grammar []
  refine ⟨by decide, by decide, reads _ _ _ (by decide) (by decide), ?_, ?_, ?_⟩
  · rw [accepts]
    exact .steps "game.gb" "+000" [] 0 ⟨by decide, List.all_eq_true.mp rfl, rfl, by decide⟩
  · rw [refuses]
    exact .steps "game.gb" "18446744073709551615x" [] fun n numeral =>
      absurd (numeral.digits 'x' (by decide)) (by decide)
  · rw [refuses]
    exact .steps "game.gb" "18446744073709551616x" [] fun n numeral =>
      absurd (numeral.digits 'x' (by decide)) (by decide)

end CommandLine

end Sm83
