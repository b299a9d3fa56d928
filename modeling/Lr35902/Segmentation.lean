import Lr35902.Instruction.Length

/-! Byte strings cut into instructions. Every byte string has exactly one
division into whole instructions and a tail that is too short for the one it
begins, because the first byte of each piece settles its length. -/
namespace Lr35902

/-- The bytes are exactly one instruction. -/
def IsInstruction (bytes : List UInt8) : Prop :=
  ∃ first ∈ bytes.head?, bytes.length = Instruction.length first

/-- The bytes are too few for the instruction they begin, if they begin one at
all. -/
def IsTail (bytes : List UInt8) : Prop :=
  ∀ first ∈ bytes.head?, bytes.length < Instruction.length first

theorem isInstruction_iff {bytes : List UInt8} :
    IsInstruction bytes ↔ bytes.length = Instruction.needed bytes := by
  cases bytes with
  | nil => simp [IsInstruction, Instruction.needed]
  | cons first rest => simp [IsInstruction, Instruction.needed]

theorem isTail_iff {bytes : List UInt8} :
    IsTail bytes ↔ bytes.length < Instruction.needed bytes := by
  cases bytes with
  | nil => simp [IsTail, Instruction.needed]
  | cons first rest => simp [IsTail, Instruction.needed]

theorem IsInstruction.ne_nil {bytes : List UInt8} (whole : IsInstruction bytes) : bytes ≠ [] := by
  rintro rfl
  simp [IsInstruction] at whole

/-- An instruction settles how many bytes are needed, whatever comes after. -/
theorem IsInstruction.needed_append {part : List UInt8} (whole : IsInstruction part)
    (later : List UInt8) : Instruction.needed (part ++ later) = part.length := by
  rw [Instruction.needed_append whole.ne_nil, isInstruction_iff.mp whole]

/-- What does not begin with a whole instruction is too short for one. -/
theorem tail_or_instruction (bytes : List UInt8) :
    IsTail bytes ∨ ∃ part later, IsInstruction part ∧ bytes = part ++ later := by
  by_cases short : bytes.length < Instruction.needed bytes
  · exact .inl (isTail_iff.mpr short)
  · refine .inr ⟨bytes.take (Instruction.needed bytes), bytes.drop (Instruction.needed bytes), ?_,
      (List.take_append_drop _ _).symm⟩
    rw [isInstruction_iff, Instruction.needed_take, List.length_take]
    omega

/-- A division of a byte string into instructions and a tail. -/
structure Segmentation (bytes : List UInt8) (parts : List (List UInt8)) (tail : List UInt8) :
    Prop where
  joined : parts.flatten ++ tail = bytes
  whole : ∀ part ∈ parts, IsInstruction part
  incomplete : IsTail tail

/-- Between two instructions of a division the byte string can be cut. -/
theorem Segmentation.cut {bytes tail : List UInt8} {parts : List (List UInt8)}
    (divided : Segmentation bytes parts tail) (count : Nat) :
    bytes = (parts.take count).flatten ++ ((parts.drop count).flatten ++ tail) := by
  rw [← List.append_assoc, ← List.flatten_append, List.take_append_drop, divided.joined]

/-- The division found by cutting instructions off the front. -/
def segments : List UInt8 → List (List UInt8) × List UInt8
  | [] => ([], [])
  | first :: rest =>
    let length := Instruction.length first
    if rest.length + 1 < length then ([], first :: rest)
    else
      let later := segments (rest.drop (length - 1))
      ((first :: rest.take (length - 1)) :: later.1, later.2)
termination_by bytes => bytes.length
decreasing_by
  simp only [List.length_drop, List.length_cons]
  omega

end Lr35902
