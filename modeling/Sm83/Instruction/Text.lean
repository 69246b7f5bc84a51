import Sm83.Instruction.Basic
import Sm83.Text.Braced

/-!
Instructions written out by name.
-/

namespace Sm83

/-- The name of a slot. -/
def Slot.describe : Slot → String
  | .b => "B"
  | .c => "C"
  | .d => "D"
  | .e => "E"
  | .h => "H"
  | .l => "L"
  | .atHl => "IndirectHl"
  | .a => "A"

/-- The name of a pair. -/
def Pair.describe : Pair → String
  | .bc => "Bc"
  | .de => "De"
  | .hl => "Hl"
  | .sp => "Sp"

/-- The name of a pair that is pushed or popped. -/
def StackPair.describe : StackPair → String
  | .bc => "Bc"
  | .de => "De"
  | .hl => "Hl"
  | .af => "Af"

/-- The name of a condition. -/
def Condition.describe : Condition → String
  | .always => "Always"
  | .notZero => "NotZero"
  | .zero => "Zero"
  | .notCarry => "NotCarry"
  | .carry => "Carry"

/-- The name of an operation on the accumulator. -/
def Alu.Op.describe : Alu.Op → String
  | .add => "Add"
  | .adc => "Adc"
  | .sub => "Sub"
  | .sbc => "Sbc"
  | .and => "And"
  | .xor => "Xor"
  | .or => "Or"
  | .cp => "Cp"

/-- The name of a rotation. -/
def Rotate.describe : Rotate → String
  | .rlc => "Rlc"
  | .rrc => "Rrc"
  | .rl => "Rl"
  | .rr => "Rr"

/-- The name of a transfer of the accumulator; `direction` is what it begins with. -/
def Address.describeTransfer (direction : String) : Address → String
  | .bc => Text.variant (direction ++ "A") "Bc"
  | .de => Text.variant (direction ++ "A") "De"
  | .hlIncrement => Text.variant (direction ++ "A") "HlIncrement"
  | .hlDecrement => Text.variant (direction ++ "A") "HlDecrement"
  | .highPage => direction ++ "High"
  | .highPageC => direction ++ "HighC"
  | .absolute => direction ++ "Absolute"

/-- The name of an instruction, with its operands. -/
def Instruction.describe : Instruction → String
  | .nop => "Nop"
  | .stop => "Stop"
  | .load t (.slot s) => Text.braced "Load" [("dst", t.describe), ("src", s.describe)]
  | .load t .immediate => Text.variant "LoadImmediate" t.describe
  | .loadWord p => Text.variant "LoadWordImmediate" p.describe
  | .storeA a => a.describeTransfer "Store"
  | .loadA a => a.describeTransfer "Load"
  | .storeSp => "StoreSp"
  | .copyHlToSp => "LoadSpHl"
  | .loadHlSpOffset => "LoadHlSpOffset"
  | .addSpOffset => "AddSpOffset"
  | .alu op (.slot s) => Text.braced "Alu" [("op", op.describe), ("src", s.describe)]
  | .alu op .immediate => Text.variant "AluImmediate" op.describe
  | .increment s => Text.variant "Increment" s.describe
  | .decrement s => Text.variant "Decrement" s.describe
  | .incrementPair p => Text.variant "IncrementWord" p.describe
  | .decrementPair p => Text.variant "DecrementWord" p.describe
  | .addHl p => Text.variant "AddHl" p.describe
  | .rotateA r => Text.variant "RotateA" r.describe
  | .decimalAdjust => "DecimalAdjust"
  | .complement => "Complement"
  | .setCarry => "SetCarry"
  | .complementCarry => "ComplementCarry"
  | .jumpRelative c => Text.variant "JumpRelative" c.describe
  | .jump c => Text.variant "Jump" c.describe
  | .jumpHl => "JumpHl"
  | .call c => Text.variant "Call" c.describe
  | .ret c => Text.variant "Return" c.describe
  | .retInterrupt => "ReturnEnableInterrupts"
  | .restart v => Text.variant "Restart" (toString v.toNat)
  | .push p => Text.variant "Push" p.describe
  | .pop p => Text.variant "Pop" p.describe
  | .disableInterrupts => "DisableInterrupts"
  | .enableInterrupts => "EnableInterrupts"
  | .extended => "Prefix"
  | .undefined _ => "Illegal"

end Sm83
