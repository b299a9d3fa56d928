import Lr35902.Instruction.Octal
import Lr35902.LittleEndian

/-! The way back from an event to the bytes of an instruction. Every operand
gives back its octal digit, and the digits make up the opcode. Where two
instructions mean the same, the longer one is written, and `STOP` is padded
with zero. What comes out for an event without an instruction has no meaning. -/
namespace Lr35902.Instruction.Octal

/-- The opcode with these octal digits. -/
def opcode (x y z : Nat) : UInt8 := UInt8.ofNat (64 * x + 8 * y + z)

/-- The digit of an 8-bit operand. -/
def operandDigit : Operand → Nat
  | .register .b => 0
  | .register .c => 1
  | .register .d => 2
  | .register .e => 3
  | .register .h => 4
  | .register .l => 5
  | .indirect _ => 6
  | _ => 7

/-- The digit of an 8-bit operand where the carry takes part. -/
def carriedDigit : Carried → Nat
  | .register register => operandDigit (.register register)
  | _ => 6

/-- Half the digit of a 16-bit register. `SP` in arithmetic and `AF` on the stack
share the last one. -/
def pairHalf : Register16 → Nat
  | .bc => 0
  | .de => 1
  | .hl => 2
  | _ => 3

/-- Half the digit of a cell that the accumulator is stored to or loaded
from. -/
def pointerHalf : Indirect → Nat
  | .bc => 0
  | .de => 1
  | .hli => 2
  | _ => 3

def conditionDigit : Condition → Nat
  | .nz => 0
  | .z => 1
  | .nc => 2
  | .c => 3

def shiftDigit : ShiftOp → Nat
  | .rlc => 0
  | .rrc => 1
  | .rl => 2
  | .rr => 3
  | .sla => 4
  | .sra => 5
  | .swap => 6
  | .srl => 7

/-- The first digit of a bit operation behind the extended introducer. -/
def bitDigit : BitOp → Nat
  | .bit => 1
  | .res => 2
  | .set => 3

/-- An accumulator operation, whose digit is one more where the carry takes
part. -/
def encodeArithmetic (digit : Nat) : Operand → List UInt8
  | .immediate byte => [opcode 3 digit 6, byte]
  | .withCarry (.immediate byte) => [opcode 3 (digit + 1) 6, byte]
  | .withCarry carried => [opcode 2 (digit + 1) (carriedDigit carried)]
  | operand => [opcode 2 digit (operandDigit operand)]

/-- An 8-bit load. -/
def encodeLoad : Operand → Operand → List UInt8
  | .address word, _ => opcode 3 5 2 :: LittleEndian.wordBytes word
  | _, .address word => opcode 3 7 2 :: LittleEndian.wordBytes word
  | .partialAddress _ _, _ => [opcode 3 4 2]
  | _, .partialAddress _ _ => [opcode 3 6 2]
  | dest, .immediate byte => [opcode 0 (operandDigit dest) 6, byte]
  | .indirect .hl, src => [opcode 1 6 (operandDigit src)]
  | dest, .indirect .hl => [opcode 1 (operandDigit dest) 6]
  | .indirect pointer, _ => [opcode 0 (2 * pointerHalf pointer) 2]
  | _, .indirect pointer => [opcode 0 (2 * pointerHalf pointer + 1) 2]
  | dest, src => [opcode 1 (operandDigit dest) (operandDigit src)]

/-- The bytes of an instruction that means this event. -/
def encode : Event → List UInt8
  | .nop => [opcode 0 0 0]
  | .load dest src => encodeLoad dest src
  | .load16 (.address word) _ => opcode 0 1 0 :: LittleEndian.wordBytes word
  | .load16 (.register dest) (.immediate word) =>
    opcode 0 (2 * pairHalf dest) 1 :: LittleEndian.wordBytes word
  | .load16 _ _ => [opcode 3 7 1]
  | .push register => [opcode 3 (2 * pairHalf register) 5]
  | .pop register => [opcode 3 (2 * pairHalf register) 1]
  | .add operand => encodeArithmetic 0 operand
  | .addHl register => [opcode 0 (2 * pairHalf register + 1) 1]
  | .addSp offset => [opcode 3 5 0, offset.toUInt8]
  | .sub operand => encodeArithmetic 2 operand
  | .and operand => encodeArithmetic 4 operand
  | .or operand => encodeArithmetic 6 operand
  | .xor operand => encodeArithmetic 5 operand
  | .compare operand => encodeArithmetic 7 operand
  | .increment operand => [opcode 0 (operandDigit operand) 4]
  | .decrement operand => [opcode 0 (operandDigit operand) 5]
  | .increment16 register => [opcode 0 (2 * pairHalf register) 3]
  | .decrement16 register => [opcode 0 (2 * pairHalf register + 1) 3]
  | .rotateA op => [opcode 0 (shiftDigit op) 7]
  | .shift op operand => [opcode 3 1 3, opcode 0 (shiftDigit op) (operandDigit operand)]
  | .bit op index operand =>
    [opcode 3 1 3, opcode (bitDigit op) index.toNat (operandDigit operand)]
  | .flagSet delta => if delta = .setCarry then [opcode 0 6 7] else [opcode 0 7 7]
  | .complement => [opcode 0 5 7]
  | .decimalAdjust => [opcode 0 4 7]
  | .compound (.load16 _ (.registerOffset _ offset)) _ => [opcode 3 7 0, offset.toUInt8]
  | .compound _ _ => []
  | .jump none (.immediate word) => opcode 3 0 3 :: LittleEndian.wordBytes word
  | .jump none _ => [opcode 3 5 1]
  | .jump (some tested) (.immediate word) =>
    opcode 3 (conditionDigit tested) 2 :: LittleEndian.wordBytes word
  | .jump (some _) _ => []
  | .jumpRelative none offset => [opcode 0 3 0, offset.toUInt8]
  | .jumpRelative (some tested) offset => [opcode 0 (conditionDigit tested + 4) 0, offset.toUInt8]
  | .call none target => opcode 3 1 5 :: LittleEndian.wordBytes target
  | .call (some tested) target =>
    opcode 3 (conditionDigit tested) 4 :: LittleEndian.wordBytes target
  | .ret none => [opcode 3 1 1]
  | .ret (some tested) => [opcode 3 (conditionDigit tested) 0]
  | .retInterrupt => [opcode 3 3 1]
  | .restart address => [opcode 3 (address.toNat / 8) 7]
  | .halt => [opcode 1 6 6]
  | .stop => [opcode 0 2 0, 0]
  | .disableInterrupts => [opcode 3 6 3]
  | .enableInterrupts => [opcode 3 7 3]
  | .unimplemented none opcode => [opcode]
  | .unimplemented (some introducer) opcode => [introducer, opcode]

end Lr35902.Instruction.Octal

namespace Lr35902.Instruction

/-- The long way to write an instruction that can be written in several: the
address of a cell of the topmost page in full, and the padding of `STOP` as
zero. -/
def longForm : List UInt8 → List UInt8
  | [0x10, _] => [0x10, 0x00]
  | [0xE0, low] => [0xEA, low, 0xFF]
  | [0xF0, low] => [0xFA, low, 0xFF]
  | bytes => bytes

end Lr35902.Instruction
