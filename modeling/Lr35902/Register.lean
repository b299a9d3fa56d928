import Lr35902.Enumerated

/-! The registers an instruction can name, and the conditions a branch can
test. These are identities only: nothing here holds a register's contents. -/
namespace Lr35902

/-- The seven 8-bit registers an operand can name. The flag register is
absent because no operand names it alone. -/
inductive Register where
  | a | b | c | d | e | h | l
  deriving DecidableEq

instance : Enumerated Register where
  all := [.a, .b, .c, .d, .e, .h, .l]
  name
    | .a => "A"
    | .b => "B"
    | .c => "C"
    | .d => "D"
    | .e => "E"
    | .h => "H"
    | .l => "L"

instance : LawfulEnumerated Register where
  mem_all value := by cases value <;> decide
  nodup_all := by decide
  name_injective left right := by cases left <;> cases right <;> simp [Enumerated.name]

/-- The 16-bit registers: four pairs of 8-bit ones, the stack pointer and the
program counter. -/
inductive Register16 where
  | af | bc | de | hl | sp | pc
  deriving DecidableEq

instance : Enumerated Register16 where
  all := [.af, .bc, .de, .hl, .sp, .pc]
  name
    | .af => "AF"
    | .bc => "BC"
    | .de => "DE"
    | .hl => "HL"
    | .sp => "SP"
    | .pc => "PC"

instance : LawfulEnumerated Register16 where
  mem_all value := by cases value <;> decide
  nodup_all := by decide
  name_injective left right := by cases left <;> cases right <;> simp [Enumerated.name]

/-- A memory access through an address held in a register pair. The forms
`hli` and `hld` also step the pair up or down after the access. -/
inductive Indirect where
  | hl | hli | hld | bc | de
  deriving DecidableEq

instance : Enumerated Indirect where
  all := [.hl, .hli, .hld, .bc, .de]
  name
    | .hl => "HL"
    | .hli => "HLI"
    | .hld => "HLD"
    | .bc => "BC"
    | .de => "DE"

instance : LawfulEnumerated Indirect where
  mem_all value := by cases value <;> decide
  nodup_all := by decide
  name_injective left right := by cases left <;> cases right <;> simp [Enumerated.name]

/-- The register pair that holds the address. -/
def Indirect.base : Indirect → Register16
  | .hl | .hli | .hld => .hl
  | .bc => .bc
  | .de => .de

/-- What a branch can test: the zero flag clear or set, the carry flag clear
or set. -/
inductive Condition where
  | nz | z | nc | c
  deriving DecidableEq

instance : Enumerated Condition where
  all := [.nz, .z, .nc, .c]
  name
    | .nz => "NZ"
    | .z => "Z"
    | .nc => "NC"
    | .c => "C"

instance : LawfulEnumerated Condition where
  mem_all value := by cases value <;> decide
  nodup_all := by decide
  name_injective left right := by cases left <;> cases right <;> simp [Enumerated.name]

end Lr35902
