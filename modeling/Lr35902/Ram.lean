import Lr35902.ByteQueue

/-! A block of memory of fixed size. Addresses are machine words; an access
that leaves the block is a fault. Every access is checked before its first step,
and so a fault changes nothing. -/
namespace Lr35902

/-- One byte per address below the size. -/
structure Ram (size : Nat) where
  cells : Vector UInt8 size
  deriving DecidableEq

namespace Ram

variable {size : Nat}

/-- Memory that holds zeros. -/
def zeroed (size : Nat) : Ram size := ⟨Vector.replicate size 0⟩

/-- The byte at an address. -/
def readByte (ram : Ram size) (address : UInt64) : Except Fault UInt8 :=
  if inside : address.toNat < size then .ok ram.cells[address.toNat]
  else .error (.outsideByte .read address.toNat size)

/-- Puts a byte at an address. -/
def writeByte (address : UInt64) (byte : UInt8) : Change (Ram size) Unit :=
  if inside : address.toNat < size then
    modify fun ram => ⟨ram.cells.set address.toNat byte inside⟩
  else throw (.outsideByte .write address.toNat size)

/-- Whether a range lies within the memory. The end of the range must be a
machine word before it can be compared with the size. An empty range may begin
at the very end. -/
def checkRange (size : Nat) (access : Access) (address : UInt64) (length : Nat) :
    Except Fault Unit :=
  if UInt64.size ≤ address.toNat + length then .error .additionOverflow
  else if size < address.toNat + length then
    .error (.outsideRange access length address.toNat size)
  else .ok ()

/-- The bytes from an address on. -/
def readBytes (ram : Ram size) (address : UInt64) (length : Nat) : Except Fault (List UInt8) := do
  checkRange size .read address length
  return (ram.cells.toList.drop address.toNat).take length

/-- The memory with bytes put into consecutive cells, as far as there are
cells. -/
def overwrite (ram : Ram size) : Nat → List UInt8 → Ram size
  | _, [] => ram
  | address, byte :: rest =>
    overwrite ⟨ram.cells.setIfInBounds address byte⟩ (address + 1) rest

/-- Puts bytes into the cells from an address on, all of them or none. -/
def writeBytes (address : UInt64) (bytes : List UInt8) : Change (Ram size) Unit := do
  checkRange size .write address bytes.length
  modify (·.overwrite address.toNat bytes)

/-- The word at an address, low byte first. -/
def readWord (ram : Ram size) (address : UInt64) : Except Fault UInt16 := do
  let bytes ← ram.readBytes address 2
  return LittleEndian.toWord bytes

/-- Puts a word at an address, low byte first. -/
def writeWord (address : UInt64) (value : UInt16) : Change (Ram size) Unit :=
  writeBytes address (LittleEndian.wordBytes value)

/-- Queues the bytes from an address on, as a processor does that walks its
program counter over them. -/
def fetchInto (ram : Ram size) (address : UInt64) (count : Nat) : Change ByteQueue Unit := do
  let bytes ← ram.readBytes address count
  modify (·.append bytes)

section
variable (address : UInt64)

theorem allOrNothing_writeByte (byte : UInt8) :
    (writeByte address byte : Change (Ram size) Unit).AllOrNothing := by
  unfold writeByte
  split
  · exact Change.allOrNothing_modify _
  · exact Change.allOrNothing_throw _

theorem allOrNothing_writeBytes (bytes : List UInt8) :
    (writeBytes address bytes : Change (Ram size) Unit).AllOrNothing :=
  Change.allOrNothing_checked _ fun _ => Change.allOrNothing_modify _

theorem allOrNothing_writeWord (value : UInt16) :
    (writeWord address value : Change (Ram size) Unit).AllOrNothing :=
  allOrNothing_writeBytes address _

theorem allOrNothing_fetchInto (ram : Ram size) (count : Nat) :
    (ram.fetchInto address count).AllOrNothing :=
  Change.allOrNothing_checked _ fun _ => Change.allOrNothing_modify _

end

/-- The cells that are not zero, in address order. -/
def nonzero (ram : Ram size) : List (Nat × UInt8) :=
  ram.cells.toList.zipIdx.filterMap fun (byte, address) =>
    if byte = 0 then none else some (address, byte)

end Ram

end Lr35902
