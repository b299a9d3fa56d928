/-! Instructions that are written differently and mean the same. The padding of
`STOP` does not matter, and a cell of the topmost page can be addressed in full
or by its low byte alone; there is no other way to lose information. -/
namespace Lr35902.Instruction

/-- Two instructions, as bytes, that mean the same. -/
inductive Synonym : List UInt8 → List UInt8 → Prop where
  | same (bytes : List UInt8) : Synonym bytes bytes
  | stop (padding other : UInt8) : Synonym [0x10, padding] [0x10, other]
  | storeHigh (low : UInt8) : Synonym [0xE0, low] [0xEA, low, 0xFF]
  | fetchHigh (low : UInt8) : Synonym [0xF0, low] [0xFA, low, 0xFF]
  | symm {left right : List UInt8} : Synonym left right → Synonym right left

end Lr35902.Instruction
