import Lr35902.Event
import Lr35902.Flag.Effect

/-! The events that instructions of this processor can have. Many more can be
written down: an event may name the program counter where no instruction does,
or test a bit that a byte does not have. -/
namespace Lr35902

/-- An 8-bit operand that every column of the opcode chart allows: a register,
or the memory cell under `HL`. -/
def Operand.isPlain : Operand → Bool
  | .register _ => true
  | .indirect .hl => true
  | _ => false

/-- A plain operand or a number. -/
def Operand.isSource : Operand → Bool
  | .immediate _ => true
  | operand => operand.isPlain

/-- What the accumulator exchanges with memory: a cell under a register pair, a
cell at a fixed address, or a device register selected by `C`. -/
def Operand.isAccumulatorCell : Operand → Bool
  | .indirect .bc => true
  | .indirect .de => true
  | .indirect .hli => true
  | .indirect .hld => true
  | .address _ => true
  | .partialAddress high low => high = 0xFF ∧ low = .c
  | _ => false

/-- A source, alone or together with the carry. -/
def Operand.isSourceOrCarried : Operand → Bool
  | .withCarry (.register _) => true
  | .withCarry (.indirect pointer) => pointer = .hl
  | .withCarry (.immediate _) => true
  | operand => operand.isSource

/-- The 16-bit registers that take part in arithmetic. -/
def Register16.isArithmetic : Register16 → Bool
  | .bc | .de | .hl | .sp => true
  | .af | .pc => false

/-- The 16-bit registers that go on the stack. -/
def Register16.isStacked : Register16 → Bool
  | .bc | .de | .hl | .af => true
  | .sp | .pc => false

/-- Whether some instruction means this event. -/
def Event.isDecodable : Event → Bool
  | .nop => true
  | .load dest src =>
    (dest.isPlain && src.isSource && !(dest = .indirect .hl && src = .indirect .hl)) ||
      (dest = .register .a && src.isAccumulatorCell) ||
      (dest.isAccumulatorCell && src = .register .a)
  | .load16 (.register dest) (.immediate _) => dest.isArithmetic
  | .load16 (.address _) (.register src) => src = .sp
  | .load16 (.register dest) (.register src) => dest = .sp && src = .hl
  | .load16 _ _ => false
  | .push register => register.isStacked
  | .pop register => register.isStacked
  | .add operand => operand.isSourceOrCarried
  | .sub operand => operand.isSourceOrCarried
  | .and operand => operand.isSource
  | .or operand => operand.isSource
  | .xor operand => operand.isSource
  | .compare operand => operand.isSource
  | .increment operand => operand.isPlain
  | .decrement operand => operand.isPlain
  | .addHl register => register.isArithmetic
  | .increment16 register => register.isArithmetic
  | .decrement16 register => register.isArithmetic
  | .addSp _ => true
  | .rotateA op => op = .rlc || op = .rrc || op = .rl || op = .rr
  | .shift _ operand => operand.isPlain
  | .bit _ index operand => index < 8 && operand.isPlain
  | .flagSet delta => delta = .setCarry || delta = .complementCarry
  | .complement => true
  | .decimalAdjust => true
  | .compound (.load16 (.register dest) (.registerOffset src _)) (.flagSet delta) =>
    dest = .hl && src = .sp && delta = .addSp
  | .compound _ _ => false
  | .jump _ (.immediate _) => true
  | .jump condition (.register register) => condition = none && register = .hl
  | .jump _ _ => false
  | .jumpRelative _ _ => true
  | .call _ _ => true
  | .ret _ => true
  | .retInterrupt => true
  | .restart address => address < 64 && address % 8 = 0
  | .halt => true
  | .stop => true
  | .disableInterrupts => true
  | .enableInterrupts => true
  | .unimplemented none opcode =>
    opcode ∈ ([0xD3, 0xDB, 0xE3, 0xE4, 0xEB, 0xEC, 0xF4, 0xFC] : List UInt8)
  | .unimplemented (some introducer) _ => introducer ∈ ([0xDD, 0xED, 0xFD] : List UInt8)

end Lr35902
