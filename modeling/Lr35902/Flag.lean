import Lr35902.Enumerated

/-! The slots of the flag register and what an instruction can do to one of
them. The layout has eight slots, of which this processor uses `z`, `n`, `h`
and `c`; the other four let the same layout serve its relatives. -/
namespace Lr35902

/-- The flags in slot order, from the highest bit of the register down. -/
inductive Flag where
  | s | z | f5 | h | f3 | pv | n | c
  deriving DecidableEq

instance : Enumerated Flag where
  all := [.s, .z, .f5, .h, .f3, .pv, .n, .c]
  name
    | .s => "S"
    | .z => "Z"
    | .f5 => "F5"
    | .h => "H"
    | .f3 => "F3"
    | .pv => "PV"
    | .n => "N"
    | .c => "C"

instance : LawfulEnumerated Flag where
  mem_all value := by cases value <;> decide
  nodup_all := by decide
  name_injective left right := by cases left <;> cases right <;> simp [Enumerated.name]

/-- What becomes of one flag. A `deferred` flag depends on values that are
known only when the instruction is executed. -/
inductive FlagState where
  | unchanged | set | reset | deferred
  deriving DecidableEq

instance : Enumerated FlagState where
  all := [.unchanged, .set, .reset, .deferred]
  name
    | .unchanged => "Unchanged"
    | .set => "Set"
    | .reset => "Reset"
    | .deferred => "Deferred"

instance : LawfulEnumerated FlagState where
  mem_all value := by cases value <;> decide
  nodup_all := by decide
  name_injective left right := by cases left <;> cases right <;> simp [Enumerated.name]

/-- Whether the flag is spoken for, whatever is said about it. -/
def FlagState.isClaim (state : FlagState) : Bool := state != .unchanged

end Lr35902
