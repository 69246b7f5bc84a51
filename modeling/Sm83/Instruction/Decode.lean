import Sm83.Instruction.Basic

/-!
The two opcode tables. An opcode falls into a band by its top two bits; the middle and bottom three
bits then number the row and the column in it. Every byte has an entry in both tables, the bytes
without a meaning included.
-/

namespace Sm83

/-! ## Operands by number -/

/-- The slot with a given number. -/
def Slot.ofField : Fin 8 → Slot
  | 0 => .b
  | 1 => .c
  | 2 => .d
  | 3 => .e
  | 4 => .h
  | 5 => .l
  | 6 => .atHl
  | 7 => .a

/-- The accumulator operation with a given number. -/
def Alu.Op.ofField : Fin 8 → Alu.Op
  | 0 => .add
  | 1 => .adc
  | 2 => .sub
  | 3 => .sbc
  | 4 => .and
  | 5 => .xor
  | 6 => .or
  | 7 => .cp

/-- The rotation or shift with a given number. -/
def Shift.ofField : Fin 8 → Shift
  | 0 => .rotate .rlc
  | 1 => .rotate .rrc
  | 2 => .rotate .rl
  | 3 => .rotate .rr
  | 4 => .sla
  | 5 => .sra
  | 6 => .swap
  | 7 => .srl

/-- The pair with a given number. -/
def Pair.ofField : Fin 4 → Pair
  | 0 => .bc
  | 1 => .de
  | 2 => .hl
  | 3 => .sp

/-- The pushed pair with a given number. -/
def StackPair.ofField : Fin 4 → StackPair
  | 0 => .bc
  | 1 => .de
  | 2 => .hl
  | 3 => .af

/-- The address held in registers with a given number. -/
def Address.ofField : Fin 4 → Address
  | 0 => .bc
  | 1 => .de
  | 2 => .hlIncrement
  | 3 => .hlDecrement

/-! ## The tables -/

namespace Instruction

/-- The band from 0x00: loads, increments, pair arithmetic, short jumps and the single operations on
the accumulator and the flags. Even rows and odd rows pair up. -/
def lowBand (row column : Fin 8) : Instruction :=
  let number : Fin 4 := ⟨row / 2, by omega⟩
  let even : Bool := row.val % 2 == 0
  match column with
  | 0 =>
    match row with
    | 0 => .nop
    | 1 => .storeSp
    | 2 => .stop
    | 3 => .jumpRelative .always
    | 4 => .jumpRelative .notZero
    | 5 => .jumpRelative .zero
    | 6 => .jumpRelative .notCarry
    | 7 => .jumpRelative .carry
  | 1 => if even then .loadWord (.ofField number) else .addHl (.ofField number)
  | 2 => if even then .storeA (.ofField number) else .loadA (.ofField number)
  | 3 => if even then .incrementPair (.ofField number) else .decrementPair (.ofField number)
  | 4 => .increment (.ofField row)
  | 5 => .decrement (.ofField row)
  | 6 => .load (.ofField row) .immediate
  | 7 =>
    match row with
    | 0 => .rotateA .rlc
    | 1 => .rotateA .rrc
    | 2 => .rotateA .rl
    | 3 => .rotateA .rr
    | 4 => .decimalAdjust
    | 5 => .complement
    | 6 => .setCarry
    | 7 => .complementCarry

/-- The band from 0xC0: returns, stack transfers, jumps, calls, immediate operands, restarts and all
the bytes without a meaning. -/
def highBand (opcode : Byte) (row column : Fin 8) : Instruction :=
  let number : Fin 4 := ⟨row / 2, by omega⟩
  let even : Bool := row.val % 2 == 0
  match column with
  | 0 =>
    match row with
    | 0 => .ret .notZero
    | 1 => .ret .zero
    | 2 => .ret .notCarry
    | 3 => .ret .carry
    | 4 => .storeA .highPage
    | 5 => .addSpOffset
    | 6 => .loadA .highPage
    | 7 => .loadHlSpOffset
  | 1 =>
    if even then .pop (.ofField number)
    else match number with
      | 0 => .ret .always
      | 1 => .retInterrupt
      | 2 => .jumpHl
      | 3 => .copyHlToSp
  | 2 =>
    match row with
    | 0 => .jump .notZero
    | 1 => .jump .zero
    | 2 => .jump .notCarry
    | 3 => .jump .carry
    | 4 => .storeA .highPageC
    | 5 => .storeA .absolute
    | 6 => .loadA .highPageC
    | 7 => .loadA .absolute
  | 3 =>
    match row with
    | 0 => .jump .always
    | 1 => .extended
    | 6 => .disableInterrupts
    | 7 => .enableInterrupts
    | _ => .undefined opcode
  | 4 =>
    match row with
    | 0 => .call .notZero
    | 1 => .call .zero
    | 2 => .call .notCarry
    | 3 => .call .carry
    | _ => .undefined opcode
  | 5 =>
    if even then .push (.ofField number)
    else match number with
      | 0 => .call .always
      | _ => .undefined opcode
  | 6 => .alu (.ofField row) .immediate
  | 7 => .restart (opcode &&& 0x38)

/-- The primary table. -/
def decode (opcode : Byte) : Instruction :=
  match opcode.top with
  | 0 => lowBand opcode.middle opcode.bottom
  | 1 => .load (.ofField opcode.middle) (.slot (.ofField opcode.bottom))
  | 2 => .alu (.ofField opcode.middle) (.slot (.ofField opcode.bottom))
  | 3 => highBand opcode opcode.middle opcode.bottom

end Instruction

/-- The slot an opcode of the extended table works on. -/
def Slot.ofOpcode (opcode : Byte) : Slot :=
  .ofField opcode.bottom

/-- The extended table, apart from the slot. -/
def Extended.decode (opcode : Byte) : Extended :=
  match opcode.top with
  | 0 => .shift (.ofField opcode.middle)
  | 1 => .testBit opcode.middle
  | 2 => .setBit opcode.middle false
  | 3 => .setBit opcode.middle true

end Sm83
