import Lr35902.Event
import Lr35902.Flag.Effect

/-! The instruction set read off the octal digits of an opcode. The first digit
picks a block, the last an operation or an operand, and the middle one a
register, a condition or an operation within it. Nothing here looks at the
opcode chart. -/
namespace Lr35902.Instruction.Octal

/-- The 8-bit operand of a digit. -/
def operand : Nat → Operand
  | 0 => .register .b
  | 1 => .register .c
  | 2 => .register .d
  | 3 => .register .e
  | 4 => .register .h
  | 5 => .register .l
  | 6 => .indirect .hl
  | _ => .register .a

/-- The 8-bit operand of a digit where the carry takes part. -/
def carried : Nat → Carried
  | 0 => .register .b
  | 1 => .register .c
  | 2 => .register .d
  | 3 => .register .e
  | 4 => .register .h
  | 5 => .register .l
  | 6 => .indirect .hl
  | _ => .register .a

/-- The 16-bit register of half a digit in arithmetic. -/
def arithmeticPair : Nat → Register16
  | 0 => .bc
  | 1 => .de
  | 2 => .hl
  | _ => .sp

/-- The 16-bit register of half a digit on the stack. -/
def stackedPair : Nat → Register16
  | 0 => .bc
  | 1 => .de
  | 2 => .hl
  | _ => .af

/-- The cell that the accumulator is stored to or loaded from. -/
def pointer : Nat → Indirect
  | 0 => .bc
  | 1 => .de
  | 2 => .hli
  | _ => .hld

def condition : Nat → Condition
  | 0 => .nz
  | 1 => .z
  | 2 => .nc
  | _ => .c

def shiftOp : Nat → ShiftOp
  | 0 => .rlc
  | 1 => .rrc
  | 2 => .rl
  | 3 => .rr
  | 4 => .sla
  | 5 => .sra
  | 6 => .swap
  | _ => .srl

/-- The accumulator operation of a digit, on an operand that is given with and
without the carry. -/
def arithmetic (digit : Nat) (plain : Operand) (withCarry : Carried) : Event :=
  match digit with
  | 0 => .add plain
  | 1 => .add (.withCarry withCarry)
  | 2 => .sub plain
  | 3 => .sub (.withCarry withCarry)
  | 4 => .and plain
  | 5 => .xor plain
  | 6 => .or plain
  | _ => .compare plain

/-- A byte as a signed number in two's complement. -/
def signed (byte : UInt8) : Int8 :=
  if byte.toNat < 128 then Int8.ofInt byte.toNat else Int8.ofInt (byte.toNat - 256)

/-- The cell of the topmost page that a byte selects, counted from its start. -/
def highCell (byte : UInt8) : Operand := .address (UInt16.ofNat (0xFF00 + byte.toNat))

/-- The first block: loads of numbers, 16-bit arithmetic, increments, relative
jumps and operations on the accumulator. -/
def firstBlock (y z : Nat) (byte : UInt8) (word : UInt16) : Event :=
  match z, y with
  | 0, 0 => .nop
  | 0, 1 => .load16 (.address word) (.register .sp)
  | 0, 2 => .stop
  | 0, 3 => .jumpRelative none (signed byte)
  | 0, y => .jumpRelative (some (condition (y - 4))) (signed byte)
  | 1, y =>
    if y % 2 = 0 then .load16 (.register (arithmeticPair (y / 2))) (.immediate word)
    else .addHl (arithmeticPair (y / 2))
  | 2, y =>
    if y % 2 = 0 then .load (.indirect (pointer (y / 2))) (.register .a)
    else .load (.register .a) (.indirect (pointer (y / 2)))
  | 3, y =>
    if y % 2 = 0 then .increment16 (arithmeticPair (y / 2))
    else .decrement16 (arithmeticPair (y / 2))
  | 4, y => .increment (operand y)
  | 5, y => .decrement (operand y)
  | 6, y => .load (operand y) (.immediate byte)
  | _, 4 => .decimalAdjust
  | _, 5 => .complement
  | _, 6 => .flagSet .setCarry
  | _, 7 => .flagSet .complementCarry
  | _, y => .rotateA (shiftOp y)

/-- The table behind the extended introducer. -/
def extendedTable (opcode : UInt8) : Event :=
  let x := opcode.toNat / 64
  let y := opcode.toNat / 8 % 8
  let target := operand (opcode.toNat % 8)
  match x with
  | 0 => .shift (shiftOp y) target
  | 1 => .bit .bit (UInt8.ofNat y) target
  | 2 => .bit .res (UInt8.ofNat y) target
  | _ => .bit .set (UInt8.ofNat y) target

/-- The last block: control flow, the stack, arithmetic with a number, loads of
the topmost page, and the opcodes without a meaning. -/
def lastBlock (opcode : UInt8) (y z : Nat) (byte : UInt8) (word : UInt16) : Event :=
  match z, y with
  | 0, 4 => .load (highCell byte) (.register .a)
  | 0, 5 => .addSp (signed byte)
  | 0, 6 => .load (.register .a) (highCell byte)
  | 0, 7 =>
    .compound (.load16 (.register .hl) (.registerOffset .sp (signed byte))) (.flagSet .addSp)
  | 0, y => .ret (some (condition y))
  | 1, 1 => .ret none
  | 1, 3 => .retInterrupt
  | 1, 5 => .jump none (.register .hl)
  | 1, 7 => .load16 (.register .sp) (.register .hl)
  | 1, y => .pop (stackedPair (y / 2))
  | 2, 4 => .load (.partialAddress 0xFF .c) (.register .a)
  | 2, 5 => .load (.address word) (.register .a)
  | 2, 6 => .load (.register .a) (.partialAddress 0xFF .c)
  | 2, 7 => .load (.register .a) (.address word)
  | 2, y => .jump (some (condition y)) (.immediate word)
  | 3, 0 => .jump none (.immediate word)
  | 3, 1 => extendedTable byte
  | 3, 6 => .disableInterrupts
  | 3, 7 => .enableInterrupts
  | 3, _ => .unimplemented none opcode
  | 4, y => if y < 4 then .call (some (condition y)) word else .unimplemented none opcode
  | 5, y =>
    if y % 2 = 0 then .push (stackedPair (y / 2))
    else if y = 1 then .call none word
    else .unimplemented (some opcode) byte
  | 6, y => arithmetic y (.immediate byte) (.immediate byte)
  | _, y => .restart (UInt8.ofNat (8 * y))

/-- What an opcode means together with the bytes after it: the first of them as
a byte, the first two as a word with the low byte first. -/
def meaning (opcode : UInt8) (following : List UInt8) : Event :=
  let x := opcode.toNat / 64
  let y := opcode.toNat / 8 % 8
  let z := opcode.toNat % 8
  let byte := following.getD 0 0
  let word := UInt16.ofNat (byte.toNat + 256 * (following.getD 1 0).toNat)
  match x with
  | 0 => firstBlock y z byte word
  | 1 => if y = 6 ∧ z = 6 then .halt else .load (operand y) (operand z)
  | 2 => arithmetic y (operand z) (carried z)
  | _ => lastBlock opcode y z byte word

end Lr35902.Instruction.Octal
