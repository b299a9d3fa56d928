import Lr35902.Event.Layout
import Lr35902.Json

/-! Reading events, and the values they are made of, from their structured
form. -/
namespace Lr35902

instance : OfJson FlagDelta where
  ofJson? json := do
    let states : List FlagState ← json.items?
    FlagDelta.ofStates? states

def Carried.read? : Json → Option Carried
  | .object [("Register", value)] => .register <$> ofJson? value
  | .object [("Indirect", value)] => .indirect <$> ofJson? value
  | .object [("Immediate", value)] => .immediate <$> ofJson? value
  | _ => none

instance : OfJson Carried := ⟨Carried.read?, none⟩

def Operand.read? : Json → Option Operand
  | .object [("Register", value)] => .register <$> ofJson? value
  | .object [("Immediate", value)] => .immediate <$> ofJson? value
  | .object [("Address", value)] => .address <$> ofJson? value
  | .object [("Indirect", value)] => .indirect <$> ofJson? value
  | .object [("PartialAddress", .object members)] =>
    return .partialAddress (← Json.member? members "msb") (← Json.member? members "lsb")
  | .object [("WithCarry", value)] => .withCarry <$> ofJson? value
  | _ => none

instance : OfJson Operand := ⟨Operand.read?, none⟩

def Operand16.read? : Json → Option Operand16
  | .object [("Register", value)] => .register <$> ofJson? value
  | .object [("Immediate", value)] => .immediate <$> ofJson? value
  | .object [("Address", value)] => .address <$> ofJson? value
  | .object [("RegisterOffset", .array [base, offset])] =>
    return .registerOffset (← ofJson? base) (← ofJson? offset)
  | _ => none

instance : OfJson Operand16 := ⟨Operand16.read?, none⟩

namespace Event

/-- An event without fields, by its name. -/
def ofBareName? : String → Option Event
  | "Nop" => some .nop
  | "Complement" => some .complement
  | "DecimalAdjust" => some .decimalAdjust
  | "ReturnInterrupt" => some .retInterrupt
  | "Halt" => some .halt
  | "Stop" => some .stop
  | "DisableInterrupts" => some .disableInterrupts
  | "EnableInterrupts" => some .enableInterrupts
  | _ => none

/-- An event with fields that hold no further events, by its name and the form
of its fields. -/
def ofFields? : String → Json → Option Event
  | "Load", .object members =>
    return .load (← Json.member? members "dest") (← Json.member? members "src")
  | "Load16", .object members =>
    return .load16 (← Json.member? members "dest") (← Json.member? members "src")
  | "Push", value => .push <$> ofJson? value
  | "Pop", value => .pop <$> ofJson? value
  | "Add", value => .add <$> ofJson? value
  | "AddHl", value => .addHl <$> ofJson? value
  | "AddSp", value => .addSp <$> ofJson? value
  | "Sub", value => .sub <$> ofJson? value
  | "And", value => .and <$> ofJson? value
  | "Or", value => .or <$> ofJson? value
  | "Xor", value => .xor <$> ofJson? value
  | "Compare", value => .compare <$> ofJson? value
  | "Increment", value => .increment <$> ofJson? value
  | "Decrement", value => .decrement <$> ofJson? value
  | "Increment16", value => .increment16 <$> ofJson? value
  | "Decrement16", value => .decrement16 <$> ofJson? value
  | "RotateA", value => .rotateA <$> ofJson? value
  | "Shift", .object members =>
    return .shift (← Json.member? members "op") (← Json.member? members "operand")
  | "Bit", .object members =>
    return .bit (← Json.member? members "op") (← Json.member? members "bit")
      (← Json.member? members "operand")
  | "FlagSet", value => .flagSet <$> ofJson? value
  | "Jump", .array [condition, target] =>
    return .jump (← ofJson? condition) (← ofJson? target)
  | "JumpRelative", .array [condition, offset] =>
    return .jumpRelative (← ofJson? condition) (← ofJson? offset)
  | "Call", .array [condition, target] =>
    return .call (← ofJson? condition) (← ofJson? target)
  | "Return", value => .ret <$> ofJson? value
  | "Restart", value => .restart <$> ofJson? value
  | "Unimplemented", .object members =>
    return .unimplemented (← Json.member? members "prefix") (← Json.member? members "opcode")
  | name, .null => ofBareName? name
  | _, _ => none

/-- An event. Only a compound holds further events, and its two parts are read
like the whole. -/
def read? : Json → Option Event
  | .text name => ofBareName? name
  | .object [("Compound", .array [first, second])] =>
    return .compound (← read? first) (← read? second)
  | .object [(name, fields)] => ofFields? name fields
  | _ => none

end Event

instance : OfJson Event := ⟨Event.read?, none⟩

end Lr35902
