import Lr35902.Datum
import Lr35902.Event

/-! The layouts of events and of the values they are made of, from which both
the text and the structured form of an event follow. -/
namespace Lr35902

instance : Described FlagDelta := ⟨fun delta => .wrapped "FlagDelta" (datum delta.states)⟩

instance : Described FlagClash := ⟨fun clash => .record "FlagConflict" [("flag", datum clash.flag)]⟩

instance : Described Underflow where
  datum underflow := .record "StreamUnderflow"
    [("requested", datum underflow.requested), ("available", datum underflow.available)]

def Carried.layout : Carried → Datum
  | .register value => .tuple "Register" [datum value]
  | .indirect value => .tuple "Indirect" [datum value]
  | .immediate value => .tuple "Immediate" [datum value]

instance : Described Carried := ⟨Carried.layout⟩

def Operand.layout : Operand → Datum
  | .register value => .tuple "Register" [datum value]
  | .immediate value => .tuple "Immediate" [datum value]
  | .address value => .tuple "Address" [datum value]
  | .indirect value => .tuple "Indirect" [datum value]
  | .partialAddress high low => .record "PartialAddress" [("msb", datum high), ("lsb", datum low)]
  | .withCarry value => .tuple "WithCarry" [datum value]

instance : Described Operand := ⟨Operand.layout⟩

def Operand16.layout : Operand16 → Datum
  | .register value => .tuple "Register" [datum value]
  | .immediate value => .tuple "Immediate" [datum value]
  | .address value => .tuple "Address" [datum value]
  | .registerOffset base offset => .tuple "RegisterOffset" [datum base, datum offset]

instance : Described Operand16 := ⟨Operand16.layout⟩

def Event.layout : Event → Datum
  | .nop => .tag "Nop"
  | .load dest src => .record "Load" [("dest", datum dest), ("src", datum src)]
  | .load16 dest src => .record "Load16" [("dest", datum dest), ("src", datum src)]
  | .push register => .tuple "Push" [datum register]
  | .pop register => .tuple "Pop" [datum register]
  | .add operand => .tuple "Add" [datum operand]
  | .addHl register => .tuple "AddHl" [datum register]
  | .addSp offset => .tuple "AddSp" [datum offset]
  | .sub operand => .tuple "Sub" [datum operand]
  | .and operand => .tuple "And" [datum operand]
  | .or operand => .tuple "Or" [datum operand]
  | .xor operand => .tuple "Xor" [datum operand]
  | .compare operand => .tuple "Compare" [datum operand]
  | .increment operand => .tuple "Increment" [datum operand]
  | .decrement operand => .tuple "Decrement" [datum operand]
  | .increment16 register => .tuple "Increment16" [datum register]
  | .decrement16 register => .tuple "Decrement16" [datum register]
  | .rotateA op => .tuple "RotateA" [datum op]
  | .shift op operand => .record "Shift" [("op", datum op), ("operand", datum operand)]
  | .bit op index operand =>
    .record "Bit" [("op", datum op), ("bit", datum index), ("operand", datum operand)]
  | .flagSet delta => .tuple "FlagSet" [datum delta]
  | .complement => .tag "Complement"
  | .decimalAdjust => .tag "DecimalAdjust"
  | .compound first second => .tuple "Compound" [first.layout, second.layout]
  | .jump condition target => .tuple "Jump" [datum condition, datum target]
  | .jumpRelative condition offset => .tuple "JumpRelative" [datum condition, datum offset]
  | .call condition target => .tuple "Call" [datum condition, datum target]
  | .ret condition => .tuple "Return" [datum condition]
  | .retInterrupt => .tag "ReturnInterrupt"
  | .restart address => .tuple "Restart" [datum address]
  | .halt => .tag "Halt"
  | .stop => .tag "Stop"
  | .disableInterrupts => .tag "DisableInterrupts"
  | .enableInterrupts => .tag "EnableInterrupts"
  | .unimplemented introducer opcode =>
    .record "Unimplemented" [("prefix", datum introducer), ("opcode", datum opcode)]

instance : Described Event := ⟨Event.layout⟩

end Lr35902
