import Lr35902.Register

/-! Where an instruction reads a value from or writes it to. Numbers that
follow the opcode have already been taken out of the byte stream. -/
namespace Lr35902

/-- What can be added or subtracted together with the carry. -/
inductive Carried where
  | register (register : Register)
  | indirect (indirect : Indirect)
  | immediate (value : UInt8)
  deriving DecidableEq

/-- The place of an 8-bit value. A `partialAddress` has its high byte fixed by
the opcode and takes its low byte from a register. -/
inductive Operand where
  | register (register : Register)
  | immediate (value : UInt8)
  | address (address : UInt16)
  | indirect (indirect : Indirect)
  | partialAddress (high : UInt8) (low : Register)
  | withCarry (carried : Carried)
  deriving DecidableEq

/-- The place of a 16-bit value. A `registerOffset` is a register plus a signed
displacement. -/
inductive Operand16 where
  | register (register : Register16)
  | immediate (value : UInt16)
  | address (address : UInt16)
  | registerOffset (register : Register16) (offset : Int8)
  deriving DecidableEq

/-- The address of a byte in the topmost page, where the device registers
are. -/
def Operand.high (low : UInt8) : Operand := .address (0xFF00 ||| low.toUInt16)

end Lr35902
