/-! How long an instruction is. The first byte alone decides, so a decoder can
tell whether an instruction is complete before it takes anything. -/
namespace Lr35902.Instruction

/-- The byte that introduces the extended table of shifts and bit
operations. -/
def extendedIntroducer : UInt8 := 0xCB

/-- The bytes that introduce further tables in related processors. Here they
mark an instruction of two bytes without a meaning. -/
def foreignIntroducers : List UInt8 := [0xDD, 0xED, 0xFD]

/-- The opcodes followed by a word. -/
def wordOpcodes : List UInt8 :=
  [0x01, 0x08, 0x11, 0x21, 0x31,
    0xC2, 0xC3, 0xC4, 0xCA, 0xCC, 0xCD,
    0xD2, 0xD4, 0xDA, 0xDC,
    0xEA, 0xFA]

/-- The opcodes followed by a byte: a number, a displacement, the low half of
an address, or the padding after `STOP`. -/
def byteOpcodes : List UInt8 :=
  [0x06, 0x0E, 0x16, 0x1E, 0x26, 0x2E, 0x36, 0x3E,
    0x18, 0x20, 0x28, 0x30, 0x38,
    0xC6, 0xCE, 0xD6, 0xDE, 0xE6, 0xEE, 0xF6, 0xFE,
    0xE0, 0xE8, 0xF0, 0xF8,
    0x10]

/-- The number of bytes, from one to three, of the instruction that starts with
the given byte. -/
def length (first : UInt8) : Nat :=
  if first ∈ wordOpcodes then 3
  else if first ∈ byteOpcodes then 2
  else if first = extendedIntroducer ∨ first ∈ foreignIntroducers then 2
  else 1

/-- The number of bytes that have to be there before the next instruction is.
Without its first byte that is one, to begin with. -/
def needed : List UInt8 → Nat
  | [] => 1
  | first :: _ => length first

/-- The longest instructions are those with a word. -/
theorem length_eq_three_iff {first : UInt8} : length first = 3 ↔ first ∈ wordOpcodes := by
  unfold length
  constructor
  · intro longest
    split at longest
    · assumption
    · split at longest
      · cases longest
      · split at longest <;> cases longest
  · intro wide
    rw [if_pos wide]

theorem length_pos (first : UInt8) : 0 < length first := by
  unfold length
  split
  · decide
  · split
    · decide
    · split <;> decide

theorem length_le (first : UInt8) : length first ≤ 3 := by
  unfold length
  split
  · decide
  · split
    · decide
    · split <;> decide

theorem needed_pos (bytes : List UInt8) : 0 < needed bytes := by
  cases bytes with
  | nil => decide
  | cons first rest => exact length_pos first

theorem needed_le (bytes : List UInt8) : needed bytes ≤ 3 := by
  cases bytes with
  | nil => decide
  | cons first rest => exact length_le first

/-- The first byte settles the number, whatever comes after. -/
theorem needed_append {bytes : List UInt8} (nonempty : bytes ≠ []) (later : List UInt8) :
    needed (bytes ++ later) = needed bytes := by
  cases bytes with
  | nil => exact absurd rfl nonempty
  | cons first rest => rfl

theorem needed_take (bytes : List UInt8) : needed (bytes.take (needed bytes)) = needed bytes := by
  cases bytes with
  | nil => rfl
  | cons first rest =>
    cases count : length first with
    | zero => exact absurd count (Nat.ne_of_gt (length_pos first))
    | succ more => simp only [needed, count, List.take_succ_cons]

end Lr35902.Instruction
