import Lr35902.Enumerated
import Lr35902.LittleEndian

/-! The binary form of values: fixed-width numbers, low byte first, and no
padding. A choice among constructors is a four-byte index, an optional value
is led by a byte 0 or 1, and a list by an eight-byte count. Every form says
where it ends, so readers leave what follows untouched. -/
namespace Lr35902

/-- A reader takes a value off the front of a byte string, or refuses it. -/
abbrev Reader (α : Type) := StateT (List UInt8) Option α

namespace Reader

def refuse {α : Type} : Reader α := fun _ => none

def byte : Reader UInt8
  | [] => none
  | first :: rest => some (first, rest)

/-- The next bytes, as many as asked for. -/
def bytes : Nat → Reader (List UInt8)
  | 0 => pure []
  | count + 1 => do
    let first ← byte
    let rest ← bytes count
    return first :: rest

/-- A number of the given width in bytes. -/
def number (width : Nat) : Reader Nat := do
  let digits ← bytes width
  return LittleEndian.ofBytes digits

/-- A value found by its index, refused if there is none. -/
def found {α : Type} : Option α → Reader α
  | some value => pure value
  | none => refuse

/-- As many values as asked for, one after the other. -/
def times {α : Type} (read : Reader α) : Nat → Reader (List α)
  | 0 => pure []
  | count + 1 => do
    let first ← read
    let rest ← times read count
    return first :: rest

end Reader

/-- A type with a binary form. -/
class Binary (α : Type) where
  write : α → List UInt8
  read : Reader α

namespace Binary

/-- The index of a constructor among those of its type. -/
def writeIndex (index : Nat) : List UInt8 := LittleEndian.toBytes 4 index

def readIndex : Reader Nat := Reader.number 4

end Binary

instance : Binary UInt8 where
  write value := [value]
  read := Reader.byte

instance : Binary Int8 where
  write value := [value.toUInt8]
  read := do
    let byte ← Reader.byte
    return byte.toInt8

instance : Binary UInt16 where
  write := LittleEndian.wordBytes
  read := do
    let bytes ← Reader.bytes 2
    return LittleEndian.toWord bytes

instance {α : Type} [Enumerated α] [BEq α] : Binary α where
  write value := Binary.writeIndex (Enumerated.index value)
  read := do
    let place ← Binary.readIndex
    Reader.found (Enumerated.ofIndex? place)

instance {α : Type} [Binary α] : Binary (Option α) where
  write
    | none => [0]
    | some value => 1 :: Binary.write value
  read := do
    match ← Reader.byte with
    | 0 => return none
    | 1 => return some (← Binary.read)
    | _ => Reader.refuse

instance {α : Type} [Binary α] : Binary (List α) where
  write values := LittleEndian.toBytes 8 values.length ++ values.flatMap Binary.write
  read := do
    let count ← Reader.number 8
    Reader.times Binary.read count

end Lr35902
