import Lr35902.Decode
import Lr35902.Instruction.Octal

/-! The opcode chart is a hand-made table, and the octal digits of an opcode
are a rule. They describe the same instruction set: every opcode, the extended
ones included, means on the chart what its digits say. -/
namespace Lr35902.OctalChart
open Instruction Instruction.Recipe Instruction.Octal

/-- Reading a byte as a signed number is the reinterpretation of its bits. -/
theorem signed_eq_toInt8 (byte : UInt8) : signed byte = byte.toInt8 := by
  have bound := byte.toNat_lt
  have value : byte.toInt8.toInt =
      if byte.toNat < 128 then (byte.toNat : Int) else byte.toNat - 256 := by
    change byte.toBitVec.toInt = _
    rw [BitVec.toInt_eq_toNat_cond]
    simp only [UInt8.toNat_toBitVec]
    split <;> split <;> omega
  apply Int8.toInt_inj.mp
  rw [value]
  unfold signed
  split
  · exact Int8.toInt_ofInt_of_le (by omega) (by omega)
  · exact Int8.toInt_ofInt_of_le (by omega) (by omega)

/-- A byte fills the low half of an address that the topmost page begins. -/
theorem highCell_eq_high (byte : UInt8) : highCell byte = Operand.high byte := by
  have joined : 0xFF00 ||| byte.toNat = 0xFF00 + byte.toNat :=
    (Nat.shiftLeft_add_eq_or_of_lt (i := 8) byte.toNat_lt 0xFF).symm
  have sameCell : UInt16.ofNat (0xFF00 + byte.toNat) = 0xFF00 ||| byte.toUInt16 := by
    have bound := byte.toNat_lt
    apply UInt16.toNat_inj.mp
    rw [UInt16.toNat_ofNat', ← joined, UInt16.toNat_or, UInt8.toNat_toUInt16]
    change _ = 0xFF00 ||| byte.toNat
    omega
  rw [highCell, Operand.high, sameCell]

/-- The extended chart follows the digits of the byte behind the introducer. -/
theorem extended_eq_extendedTable : extended = extendedTable := by
  funext opcode
  exact get_tabulated id extendedTable (by decide +kernel) opcode _

section
variable (following : List UInt8)

/-- What the digits say of the 64 opcodes that begin with the digit `x`. -/
def quarter (x : Nat) : List Event :=
  (List.range 64).map fun place => meaning (UInt8.ofNat (64 * x + place)) following

private theorem quarter_eq (x : Nat) :
    quarter following x = (quarterOpcodes x).map (meaning · following) := by
  rw [quarterOpcodes, List.map_map]
  rfl

/-- A displacement has to be written alike on both sides before the two tables
can be compared entry by entry. -/
private theorem firstQuarter_octal : firstQuarter.map (fill · following) = quarter following 0 := by
  simp only [firstQuarter, jumpRelative, ← signed_eq_toInt8]
  rfl

private theorem loadQuarter_octal : loadQuarter.map (fill · following) = quarter following 1 := rfl

private theorem arithmeticQuarter_octal :
    arithmeticQuarter.map (fill · following) = quarter following 2 := rfl

private theorem lastQuarter_octal : lastQuarter.map (fill · following) = quarter following 3 := by
  simp only [lastQuarter, extended_eq_extendedTable, ← signed_eq_toInt8, ← highCell_eq_high,
    Event.combined_eq]
  rfl

/-- Each quarter of the chart follows the digits, so each opcode does. -/
theorem fill_recipe (opcode : UInt8) :
    (recipe opcode).fill following = meaning opcode following := by
  have first := (firstQuarter_octal following).trans (quarter_eq following 0)
  have loads := (loadQuarter_octal following).trans (quarter_eq following 1)
  have arithmetic := (arithmeticQuarter_octal following).trans (quarter_eq following 2)
  have last := (lastQuarter_octal following).trans (quarter_eq following 3)
  exact recipe_by_quarters first loads arithmetic last opcode

end

/-- Decoding agrees with the digits: an instruction at the front of a queue is
taken whole, and its event is the one that its digits spell, whatever is queued
behind it. -/
theorem decodeEvent_meaning (opcode : UInt8) (following later : List UInt8)
    (whole : following.length + 1 = Instruction.length opcode) :
    decodeEvent ⟨opcode :: following ++ later⟩ =
      ⟨.ok (meaning opcode following), ⟨later⟩, (meaning opcode following).records⟩ := by
  have instruction : IsInstruction (opcode :: following) := by
    simpa [isInstruction_iff, needed] using whole
  rw [decodeEvent_instruction instruction later, Instruction.event, fill_recipe]

/-- The load of `SP - 128` into `HL`, with the padded `STOP` behind it. -/
theorem decodeEvent_stackAddress :
    ([0x80] : List UInt8).length + 1 = Instruction.length 0xF8 ∧
      (decodeEvent ⟨[0xF8, 0x80, 0x10, 0x00]⟩).result =
        .ok (.compound (.load16 (.register .hl) (.registerOffset .sp (-128))) (.flagSet .addSp)) ∧
      (decodeEvent ⟨[0xF8, 0x80, 0x10, 0x00]⟩).rest = ⟨[0x10, 0x00]⟩ := by
  have decoded := decodeEvent_meaning 0xF8 [0x80] [0x10, 0x00] (by decide)
  exact ⟨by decide, congrArg Decoding.result decoded, congrArg Decoding.rest decoded⟩

end Lr35902.OctalChart
