import Lr35902.Flag.Delta
import Lr35902.Operand

/-! What one instruction does, as data. Instructions that do the same to
different operands share a constructor, and an event says nothing about the
bytes it came from. -/
namespace Lr35902

/-- The rotates and shifts: rotates through bit 7 or 0, rotates through the
carry, arithmetic shifts, the exchange of the two halves, and the logical shift
to the right. -/
inductive ShiftOp where
  | rlc | rrc | rl | rr | sla | sra | swap | srl
  deriving DecidableEq

instance : Enumerated ShiftOp where
  all := [.rlc, .rrc, .rl, .rr, .sla, .sra, .swap, .srl]
  name
    | .rlc => "RLC"
    | .rrc => "RRC"
    | .rl => "RL"
    | .rr => "RR"
    | .sla => "SLA"
    | .sra => "SRA"
    | .swap => "SWAP"
    | .srl => "SRL"

instance : LawfulEnumerated ShiftOp where
  mem_all value := by cases value <;> decide
  nodup_all := by decide
  name_injective left right := by cases left <;> cases right <;> simp [Enumerated.name]

/-- Test, clear or set a single bit. -/
inductive BitOp where
  | bit | res | set
  deriving DecidableEq

instance : Enumerated BitOp where
  all := [.bit, .res, .set]
  name
    | .bit => "BIT"
    | .res => "RES"
    | .set => "SET"

instance : LawfulEnumerated BitOp where
  mem_all value := by cases value <;> decide
  nodup_all := by decide
  name_injective left right := by cases left <;> cases right <;> simp [Enumerated.name]

/-- What one instruction does. A `compound` is two events of a single
instruction. An `unimplemented` event stands for an opcode without a meaning,
under the byte that introduced it if there was one. -/
inductive Event where
  | nop
  | load (dest src : Operand)
  | load16 (dest src : Operand16)
  | push (register : Register16)
  | pop (register : Register16)
  | add (operand : Operand)
  | addHl (register : Register16)
  | addSp (offset : Int8)
  | sub (operand : Operand)
  | and (operand : Operand)
  | or (operand : Operand)
  | xor (operand : Operand)
  | compare (operand : Operand)
  | increment (operand : Operand)
  | decrement (operand : Operand)
  | increment16 (register : Register16)
  | decrement16 (register : Register16)
  | rotateA (op : ShiftOp)
  | shift (op : ShiftOp) (operand : Operand)
  | bit (op : BitOp) (index : UInt8) (operand : Operand)
  | flagSet (delta : FlagDelta)
  | complement
  | decimalAdjust
  | compound (first second : Event)
  | jump (condition : Option Condition) (target : Operand16)
  | jumpRelative (condition : Option Condition) (offset : Int8)
  | call (condition : Option Condition) (target : UInt16)
  | ret (condition : Option Condition)
  | retInterrupt
  | restart (address : UInt8)
  | halt
  | stop
  | disableInterrupts
  | enableInterrupts
  | unimplemented (introducer : Option UInt8) (opcode : UInt8)
  deriving DecidableEq

/-- The word that an event carries: a 16-bit number, the address of a cell, or
the target of a jump or call. -/
def Event.word? : Event → Option UInt16
  | .load (.address word) _ => some word
  | .load _ (.address word) => some word
  | .load16 (.address word) _ => some word
  | .load16 _ (.immediate word) => some word
  | .jump _ (.immediate word) => some word
  | .call _ word => some word
  | _ => none

/-- Whether the event changes nothing. An opcode without a meaning counts. -/
def Event.isNoOp : Event → Bool
  | .nop => true
  | .unimplemented _ _ => true
  | _ => false

end Lr35902
