import Lr35902.Ram

/-! The contents of a memory, told from the writes made to it. A write counts
if its whole range lies within the memory, with addresses taken as unbounded
numbers; the last write that counts and covers a cell settles what is in it. -/
namespace Lr35902.Ram

/-- A write of a byte, of consecutive bytes, or of a word. -/
inductive Write where
  | byte (address : UInt64) (value : UInt8)
  | bytes (address : UInt64) (values : List UInt8)
  | word (address : UInt64) (value : UInt16)

namespace Write

/-- The first address written. -/
def address : Write → Nat
  | byte address _ => address.toNat
  | bytes address _ => address.toNat
  | word address _ => address.toNat

/-- The bytes written from there on: a word's remainder by 256, then its
quotient. -/
def values : Write → List UInt8
  | byte _ value => [value]
  | bytes _ values => values
  | word _ value => [UInt8.ofNat (value.toNat % 256), UInt8.ofNat (value.toNat / 256)]

/-- Whether a memory of the given size has room for the write. -/
def Fits (size : Nat) (write : Write) : Prop := write.address + write.values.length ≤ size

instance (size : Nat) (write : Write) : Decidable (write.Fits size) :=
  inferInstanceAs (Decidable (_ ≤ _))

/-- The byte that the write puts into a cell, if it covers the cell. -/
def valueAt? (write : Write) (cell : Nat) : Option UInt8 :=
  if write.address ≤ cell then write.values[cell - write.address]? else none

/-- Carries out the write. -/
def attempt {size : Nat} : Write → Change (Ram size) Unit
  | byte address value => writeByte address value
  | bytes address values => writeBytes address values
  | word address value => writeWord address value

/-- The memory that the write leaves, whether or not it is a fault. -/
def apply {size : Nat} (ram : Ram size) (write : Write) : Ram size := (write.attempt ram).2

end Write

/-- What a sequence of writes to zeroed memory leaves in a cell. -/
def lastWritten (size : Nat) (writes : List Write) (cell : Nat) : UInt8 :=
  ((writes.filter (·.Fits size)).reverse.findSome? (·.valueAt? cell)).getD 0

end Lr35902.Ram
