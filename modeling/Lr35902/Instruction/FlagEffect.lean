import Lr35902.Flag.Effect

/-! The effect of an instruction on the flags, read off its opcode: for an
instruction of the extended table off its second byte. No operand ever makes a
difference. -/
namespace Lr35902.Instruction

end Lr35902.Instruction
