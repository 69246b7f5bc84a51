import Mathlib.Data.List.Basic
import Mathlib.Data.List.TakeWhile
import Sm83.Log

/-! What the texts tell. A reader takes a value off the front of a text, and each of the readers below
takes back what was written, whatever stands behind it. Only the decimal numbers have no fixed width, so
what follows them must not begin with a digit. Put together in the order of the fields, the readers
decode the report and the line on an instruction: either text determines all that it was written from
(`texts_decode`). -/
namespace Sm83

namespace Text

/-- Takes a value off the front of a text and leaves what stands behind it. -/
abbrev Reader := StateT (List Char) Option

namespace Reader

/-- Takes off a text that has to be there. -/
def expect (text : String) : Reader Unit := fun cs =>
  (cs.dropPrefix? text.toList).map fun rest => ((), rest)

/-- Takes off a label and what it stands in front of. -/
def labelled {α : Type} (label : String) (reader : Reader α) : Reader α := do
  expect label
  reader

/-- Takes off a number of exactly so many hexadecimal digits. -/
def hex (width : ℕ) : Reader ℕ := fun cs =>
  if width ≤ cs.length then some (Hex.value (cs.take width), cs.drop width) else none

/-- Takes off two hexadecimal digits. -/
def byte : Reader Byte :=
  UInt8.ofNat <$> hex 2

/-- Takes off four hexadecimal digits. -/
def word : Reader Word :=
  UInt16.ofNat <$> hex 4

/-- Takes off a decimal number, which lasts up to the first character that is no digit. -/
def decimal : Reader ℕ := fun cs =>
  let digits := cs.takeWhile Char.isDigit
  if digits.isEmpty then none
  else some (Nat.ofDigitChars 10 digits 0, cs.dropWhile Char.isDigit)

/-- Takes off the text of one of two values. -/
def choice {α : Type} (text : α → String) (first second : α) : Reader α := fun cs =>
  match cs.dropPrefix? (text first).toList with
  | some rest => some (first, rest)
  | none => (cs.dropPrefix? (text second).toList).map fun rest => (second, rest)

/-- Reads a whole text. -/
def all {α : Type} (reader : Reader α) (text : String) : Option α :=
  match reader.run text.toList with
  | some (a, []) => some a
  | _ => none

/-- A text that cannot be taken for more of a number: it begins with something else than a digit. -/
def Closes (text : String) : Prop :=
  text.toList.head?.any (!·.isDigit)

instance : DecidablePred Closes := fun text =>
  inferInstanceAs (Decidable (text.toList.head?.any (!·.isDigit)))

/-! ## Reading what was written -/

/-- Readers in a row: the second one goes on where the first one stopped. -/
theorem run_bind {α β : Type} {reader : Reader α} {next : α → Reader β} {cs rest : List Char} {a : α}
    (reads : reader.run cs = some (a, rest)) : (reader >>= next).run cs = (next a).run rest := by
  rw [StateT.run_bind, reads]
  rfl

private theorem dropPrefix?_append (text rest : List Char) :
    (text ++ rest).dropPrefix? text = some rest :=
  List.dropPrefix?_eq_some_iff.mpr ⟨text, rfl, beq_self_eq_true text⟩

private theorem run_expect (text : String) (rest : List Char) :
    (expect text).run (text.toList ++ rest) = some ((), rest) := by
  simp only [expect, StateT.run, dropPrefix?_append, Option.map_some]

private theorem run_labelled {α : Type} (label : String) {reader : Reader α} {cs rest : List Char}
    {a : α} (reads : reader.run cs = some (a, rest)) :
    (labelled label reader).run (label.toList ++ cs) = some (a, rest) := by
  rw [labelled, run_bind (run_expect label cs), reads]

private theorem run_hex (width : ℕ) {n : ℕ} (fits : n < Nat.pow 16 width) (rest : List Char) :
    (hex width).run (Hex.digits width n ++ rest) = some (n, rest) := by
  have whole : (Hex.digits width n).length = width := Hex.length_digits width n
  have room : width ≤ (Hex.digits width n ++ rest).length := by simp
  simp only [hex, StateT.run, if_pos room, List.take_left' whole, List.drop_left' whole,
    Hex.value_digits width n fits]

private theorem run_byte (v : Byte) (rest : List Char) :
    byte.run (v.hex.toList ++ rest) = some (v, rest) := by
  rw [byte, StateT.run_map, Byte.hex, String.toList_ofList, run_hex 2 v.toNat_lt]
  exact congrArg (fun v => some (v, rest)) UInt8.ofNat_toNat

private theorem run_word (w : Word) (rest : List Char) :
    word.run (w.hex.toList ++ rest) = some (w, rest) := by
  rw [word, StateT.run_map, Word.hex, String.toList_ofList, run_hex 4 w.toNat_lt]
  exact congrArg (fun w => some (w, rest)) UInt16.ofNat_toNat

private theorem Closes.takeWhile_eq_nil {text : String} (closes : Closes text) (rest : List Char) :
    (text.toList ++ rest).takeWhile Char.isDigit = [] := by
  rw [Closes, Option.any_eq_true] at closes
  obtain ⟨c, first, other⟩ := closes
  obtain ⟨cs, chars⟩ := List.head?_eq_some_iff.mp first
  rw [chars, List.cons_append, List.takeWhile_cons_of_neg (by simpa using other)]

/-- A decimal number is read back if something else than a digit follows it. -/
theorem run_decimal {stop : String} (closes : Closes stop) (n : ℕ) (rest : List Char) :
    decimal.run ((toString n).toList ++ (stop.toList ++ rest)) = some (n, stop.toList ++ rest) := by
  have written : (toString n).toList = Nat.toDigits 10 n := Nat.toList_repr
  have digits : ∀ c ∈ Nat.toDigits 10 n, c.isDigit = true :=
    fun c member => Nat.isDigit_of_mem_toDigits (by decide) (by decide) member
  have nonempty : ¬ (Nat.toDigits 10 n).isEmpty := by
    rw [List.isEmpty_iff]
    exact Nat.toDigits_ne_nil
  have stops := closes.takeWhile_eq_nil rest
  have behind : (stop.toList ++ rest).dropWhile Char.isDigit = stop.toList ++ rest := by
    have split := List.takeWhile_append_dropWhile (p := Char.isDigit) (l := stop.toList ++ rest)
    rw [stops, List.nil_append] at split
    exact split
  simp only [decimal, StateT.run, written, List.takeWhile_append_of_pos digits,
    List.dropWhile_append_of_pos digits, stops, List.append_nil, behind, if_neg nonempty,
    Nat.ofDigitChars_ten_toDigits]

private theorem run_choice_first {α : Type} (text : α → String) (first second : α)
    (rest : List Char) : (choice text first second).run ((text first).toList ++ rest) =
      some (first, rest) := by
  simp only [choice, StateT.run, dropPrefix?_append]

private theorem run_choice_second {α : Type} {text : α → String} {first second : α}
    {rest : List Char}
    (other : ((text second).toList ++ rest).dropPrefix? (text first).toList = none) :
    (choice text first second).run ((text second).toList ++ rest) = some (second, rest) := by
  simp only [choice, StateT.run, other, dropPrefix?_append, Option.map_some]

private theorem run_reason (r : StopReason) (rest : List Char) :
    (choice StopReason.text .halted .budgetExhausted).run (r.text.toList ++ rest) =
      some (r, rest) := by
  cases r with
  | halted => exact run_choice_first _ _ _ rest
  | budgetExhausted => exact run_choice_second rfl

private theorem run_latch (b : Bool) (rest : List Char) :
    (choice toString true false).run ((toString b).toList ++ rest) = some (b, rest) := by
  cases b with
  | true => exact run_choice_first _ _ _ rest
  | false => exact run_choice_second rfl

private theorem all_eq_some {α : Type} {reader : Reader α} {text : String} {a : α}
    (reads : ∀ rest, reader.run (text.toList ++ rest) = some (a, rest)) :
    reader.all text = some a := by
  have whole := reads []
  rw [List.append_nil] at whole
  rw [all, whole]

/-- Texts that are read back are equal only if what they were written from is. -/
theorem eq_iff_of_all {α : Type} {reader : Reader α} {text : α → String}
    (reads : ∀ a, reader.all (text a) = some a) (a b : α) : text a = text b ↔ a = b := by
  constructor
  · intro same
    have values : some a = some b := by rw [← reads a, ← reads b, same]
    exact Option.some.inj values
  · rintro rfl
    rfl

end Reader

end Text

/-! ## The report and the line on an instruction -/

/-- The registers, put together from their words. -/
def Registers.ofWords (pc sp af bc de hl : Word) : Registers where
  a := af.high
  b := bc.high
  c := bc.low
  d := de.high
  e := de.low
  h := hl.high
  l := hl.low
  flags := .unpack af.low
  sp := sp
  pc := pc

/-- The words of the registers are all that there is to them. -/
theorem Registers.ofWords_eq (r : Registers) : ofWords r.pc r.sp r.af r.bc r.de r.hl = r := by
  simp [ofWords, af, bc, de, hl]

/-- What is told of an instruction that is about to execute. -/
structure Trace where
  /-- The number of instructions taken before. -/
  count : UInt64
  opcode : Byte
  regs : Registers
deriving DecidableEq

/-- The line on the instruction. -/
def Trace.text (t : Trace) : String :=
  (Record.traced t.count t.opcode t.regs).message

private theorem Trace.text_eq (t : Trace) :
    t.text = toString t.count.toNat ++ ") PC=" ++ t.regs.pc.hex ++ " SP=" ++ t.regs.sp.hex ++
      " I=" ++ t.opcode.hex ++ " AF=" ++ t.regs.af.hex ++ " BC=" ++ t.regs.bc.hex ++
      " DE=" ++ t.regs.de.hex ++ " HL=" ++ t.regs.hl.hex := rfl

open Text.Reader

/-- Reads a report. -/
def Report.reader : Text.Reader Report := do
  let reason ← choice StopReason.text .halted .budgetExhausted
  let steps ← labelled " after " decimal
  let pc ← labelled " steps: PC=0x" word
  let sp ← labelled " SP=0x" word
  let af ← labelled " AF=0x" word
  let bc ← labelled " BC=0x" word
  let de ← labelled " DE=0x" word
  let hl ← labelled " HL=0x" word
  let interruptsEnabled ← labelled " IME=" (choice toString true false)
  return { outcome := ⟨steps, reason⟩, registers := .ofWords pc sp af bc de hl, interruptsEnabled }

/-- Reads the line on an instruction. -/
def Trace.reader : Text.Reader Trace := do
  let count ← decimal
  let pc ← labelled ") PC=" word
  let sp ← labelled " SP=" word
  let opcode ← labelled " I=" byte
  let af ← labelled " AF=" word
  let bc ← labelled " BC=" word
  let de ← labelled " DE=" word
  let hl ← labelled " HL=" word
  return { count := .ofNat count, opcode, regs := .ofWords pc sp af bc de hl }

private theorem Report.run_reader (r : Report) (rest : List Char) :
    reader.run (r.text.toList ++ rest) = some (r, rest) := by
  have closes : Closes " steps: PC=0x" := by decide
  have whole := Registers.ofWords_eq r.registers
  delta text
  simp only [String.toList_append, List.append_assoc]
  rw [reader, run_bind (run_reason _ _), run_bind (run_labelled _ (run_decimal closes _ _)),
    run_bind (run_labelled _ (run_word _ _)), run_bind (run_labelled _ (run_word _ _)),
    run_bind (run_labelled _ (run_word _ _)), run_bind (run_labelled _ (run_word _ _)),
    run_bind (run_labelled _ (run_word _ _)), run_bind (run_labelled _ (run_word _ _)),
    run_bind (run_labelled _ (run_latch _ _)), whole]
  rfl

private theorem Trace.run_reader (t : Trace) (rest : List Char) :
    reader.run (t.text.toList ++ rest) = some (t, rest) := by
  have closes : Closes ") PC=" := by decide
  have whole := Registers.ofWords_eq t.regs
  rw [text_eq]
  simp only [String.toList_append, List.append_assoc]
  rw [reader, run_bind (run_decimal closes _ _), run_bind (run_labelled _ (run_word _ _)),
    run_bind (run_labelled _ (run_word _ _)), run_bind (run_labelled _ (run_byte _ _)),
    run_bind (run_labelled _ (run_word _ _)), run_bind (run_labelled _ (run_word _ _)),
    run_bind (run_labelled _ (run_word _ _)), run_bind (run_labelled _ (run_word _ _)), whole,
    UInt64.ofNat_toNat]
  rfl

/-- The report that a text tells. -/
def Report.ofText? : String → Option Report :=
  reader.all

/-- What a line tells of an instruction. -/
def Trace.ofText? : String → Option Trace :=
  reader.all

/-- **Texts lose nothing.** A report is decoded from its text, and the line on an instruction gives back
the count, the opcode and all of the registers. So different reports, or different states in front of an
instruction, are never told in the same words. -/
theorem texts_decode :
    (∀ r : Report, Report.ofText? r.text = some r) ∧
    (∀ r s : Report, r.text = s.text ↔ r = s) ∧
    (∀ t : Trace, Trace.ofText? t.text = some t) ∧
    ∀ t u : Trace, t.text = u.text ↔ t = u := by
  have reports (r : Report) : Report.ofText? r.text = some r := all_eq_some r.run_reader
  have traces (t : Trace) : Trace.ofText? t.text = some t := all_eq_some t.run_reader
  exact ⟨reports, eq_iff_of_all reports, traces, eq_iff_of_all traces⟩

end Sm83
