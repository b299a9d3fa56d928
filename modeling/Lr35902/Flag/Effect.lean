import Lr35902.Flag.Delta

/-! The effect of each operation on the flags. All addressing modes of an
operation share one effect, and only the four flags of this processor are ever
claimed. -/
namespace Lr35902.FlagDelta

/-- A delta over the four flags of this processor; the other slots stay as
they are. -/
def ofZNHC (z n h c : FlagState) : FlagDelta where
  s := .unchanged
  z := z
  f5 := .unchanged
  h := h
  f3 := .unchanged
  pv := .unchanged
  n := n
  c := c

/-- Addition to the accumulator, with or without the carry. -/
def add : FlagDelta := ofZNHC .deferred .reset .deferred .deferred

/-- Subtraction from the accumulator, with or without the carry, and
comparison. -/
def sub : FlagDelta := ofZNHC .deferred .set .deferred .deferred

def and : FlagDelta := ofZNHC .deferred .reset .set .reset

def or : FlagDelta := ofZNHC .deferred .reset .reset .reset

def xor : FlagDelta := or

/-- Increment of an 8-bit value; the carry survives. -/
def increment : FlagDelta := ofZNHC .deferred .reset .deferred .unchanged

/-- Decrement of an 8-bit value; the carry survives. -/
def decrement : FlagDelta := ofZNHC .deferred .set .deferred .unchanged

/-- Addition of a 16-bit register to `HL`. -/
def addHl : FlagDelta := ofZNHC .unchanged .reset .deferred .deferred

/-- Addition of a displacement to the stack pointer, whichever register
receives the sum. -/
def addSp : FlagDelta := ofZNHC .reset .reset .deferred .deferred

/-- One-byte rotation of the accumulator, which always clears the zero flag. -/
def rotateA : FlagDelta := ofZNHC .reset .reset .reset .deferred

def shift : FlagDelta := ofZNHC .deferred .reset .reset .deferred

/-- Exchange of the two halves of a byte. -/
def swap : FlagDelta := ofZNHC .deferred .reset .reset .reset

/-- Test of one bit. -/
def bitTest : FlagDelta := ofZNHC .deferred .reset .set .unchanged

def setCarry : FlagDelta := ofZNHC .unchanged .reset .reset .set

def complementCarry : FlagDelta := ofZNHC .unchanged .reset .reset .deferred

def complement : FlagDelta := ofZNHC .unchanged .set .set .unchanged

def decimalAdjust : FlagDelta := ofZNHC .deferred .unchanged .reset .deferred

/-- Popping `AF` loads all four flags from the stack. -/
def popAf : FlagDelta := ofZNHC .deferred .deferred .deferred .deferred

/-- The effects by the name of their operation. -/
def named : List (String × FlagDelta) :=
  [("UNCHANGED", unchanged), ("ADD", add), ("SUB", sub), ("AND", and), ("OR", or), ("XOR", xor),
    ("INC", increment), ("DEC", decrement), ("ADD_HL", addHl), ("ADD_SP", addSp),
    ("ROTATE_A", rotateA), ("SHIFT", shift), ("SWAP", swap), ("BIT", bitTest),
    ("SCF", setCarry), ("CCF", complementCarry), ("CPL", complement), ("DAA", decimalAdjust),
    ("POP_AF", popAf)]

/-- The effect of a named operation. -/
def ofName? (name : String) : Option FlagDelta := named.lookup name

end Lr35902.FlagDelta
