import Lr35902.Binary
import Lr35902.Event

/-! The binary form of events: the index of the constructor, then its fields in
order. Compounds nest, so an event is read to a depth; the bytes at hand bound
the depth, because every level starts with an index of its own. -/
namespace Lr35902

instance : Binary FlagDelta where
  write delta := delta.states.flatMap Binary.write
  read := do
    let states : List FlagState ← Reader.times Binary.read 8
    Reader.found (FlagDelta.ofStates? states)

def Carried.write : Carried → List UInt8
  | .register value => Binary.writeIndex 0 ++ Binary.write value
  | .indirect value => Binary.writeIndex 1 ++ Binary.write value
  | .immediate value => Binary.writeIndex 2 ++ Binary.write value

def Carried.read : Reader Carried := do
  match ← Binary.readIndex with
  | 0 => return .register (← Binary.read)
  | 1 => return .indirect (← Binary.read)
  | 2 => return .immediate (← Binary.read)
  | _ => Reader.refuse

instance : Binary Carried := ⟨Carried.write, Carried.read⟩

def Operand.write : Operand → List UInt8
  | .register value => Binary.writeIndex 0 ++ Binary.write value
  | .immediate value => Binary.writeIndex 1 ++ Binary.write value
  | .address value => Binary.writeIndex 2 ++ Binary.write value
  | .indirect value => Binary.writeIndex 3 ++ Binary.write value
  | .partialAddress high low => Binary.writeIndex 4 ++ Binary.write high ++ Binary.write low
  | .withCarry value => Binary.writeIndex 5 ++ Binary.write value

def Operand.read : Reader Operand := do
  match ← Binary.readIndex with
  | 0 => return .register (← Binary.read)
  | 1 => return .immediate (← Binary.read)
  | 2 => return .address (← Binary.read)
  | 3 => return .indirect (← Binary.read)
  | 4 => return .partialAddress (← Binary.read) (← Binary.read)
  | 5 => return .withCarry (← Binary.read)
  | _ => Reader.refuse

instance : Binary Operand := ⟨Operand.write, Operand.read⟩

def Operand16.write : Operand16 → List UInt8
  | .register value => Binary.writeIndex 0 ++ Binary.write value
  | .immediate value => Binary.writeIndex 1 ++ Binary.write value
  | .address value => Binary.writeIndex 2 ++ Binary.write value
  | .registerOffset base offset => Binary.writeIndex 3 ++ Binary.write base ++ Binary.write offset

def Operand16.read : Reader Operand16 := do
  match ← Binary.readIndex with
  | 0 => return .register (← Binary.read)
  | 1 => return .immediate (← Binary.read)
  | 2 => return .address (← Binary.read)
  | 3 => return .registerOffset (← Binary.read) (← Binary.read)
  | _ => Reader.refuse

instance : Binary Operand16 := ⟨Operand16.write, Operand16.read⟩

namespace Event

/-- The place of an event's constructor among all of them. -/
def constructorIndex : Event → Nat
  | .nop => 0
  | .load _ _ => 1
  | .load16 _ _ => 2
  | .push _ => 3
  | .pop _ => 4
  | .add _ => 5
  | .addHl _ => 6
  | .addSp _ => 7
  | .sub _ => 8
  | .and _ => 9
  | .or _ => 10
  | .xor _ => 11
  | .compare _ => 12
  | .increment _ => 13
  | .decrement _ => 14
  | .increment16 _ => 15
  | .decrement16 _ => 16
  | .rotateA _ => 17
  | .shift _ _ => 18
  | .bit _ _ _ => 19
  | .flagSet _ => 20
  | .complement => 21
  | .decimalAdjust => 22
  | .compound _ _ => 23
  | .jump _ _ => 24
  | .jumpRelative _ _ => 25
  | .call _ _ => 26
  | .ret _ => 27
  | .retInterrupt => 28
  | .restart _ => 29
  | .halt => 30
  | .stop => 31
  | .disableInterrupts => 32
  | .enableInterrupts => 33
  | .unimplemented _ _ => 34

/-- The binary form of an event's fields. -/
def writeFields : Event → List UInt8
  | .load dest src => Binary.write dest ++ Binary.write src
  | .load16 dest src => Binary.write dest ++ Binary.write src
  | .push register => Binary.write register
  | .pop register => Binary.write register
  | .add operand => Binary.write operand
  | .addHl register => Binary.write register
  | .addSp offset => Binary.write offset
  | .sub operand => Binary.write operand
  | .and operand => Binary.write operand
  | .or operand => Binary.write operand
  | .xor operand => Binary.write operand
  | .compare operand => Binary.write operand
  | .increment operand => Binary.write operand
  | .decrement operand => Binary.write operand
  | .increment16 register => Binary.write register
  | .decrement16 register => Binary.write register
  | .rotateA op => Binary.write op
  | .shift op operand => Binary.write op ++ Binary.write operand
  | .bit op index operand => Binary.write op ++ Binary.write index ++ Binary.write operand
  | .flagSet delta => Binary.write delta
  | .compound first second =>
    (Binary.writeIndex first.constructorIndex ++ first.writeFields) ++
      (Binary.writeIndex second.constructorIndex ++ second.writeFields)
  | .jump condition target => Binary.write condition ++ Binary.write target
  | .jumpRelative condition offset => Binary.write condition ++ Binary.write offset
  | .call condition target => Binary.write condition ++ Binary.write target
  | .ret condition => Binary.write condition
  | .restart address => Binary.write address
  | .unimplemented introducer opcode => Binary.write introducer ++ Binary.write opcode
  | _ => []

/-- The binary form of an event. -/
def write (event : Event) : List UInt8 :=
  Binary.writeIndex event.constructorIndex ++ event.writeFields

/-- The fields of the event with a given constructor index, where `nested`
reads the parts of a compound. -/
def readFields (nested : Reader Event) : Nat → Reader Event
  | 0 => return .nop
  | 1 => return .load (← Binary.read) (← Binary.read)
  | 2 => return .load16 (← Binary.read) (← Binary.read)
  | 3 => return .push (← Binary.read)
  | 4 => return .pop (← Binary.read)
  | 5 => return .add (← Binary.read)
  | 6 => return .addHl (← Binary.read)
  | 7 => return .addSp (← Binary.read)
  | 8 => return .sub (← Binary.read)
  | 9 => return .and (← Binary.read)
  | 10 => return .or (← Binary.read)
  | 11 => return .xor (← Binary.read)
  | 12 => return .compare (← Binary.read)
  | 13 => return .increment (← Binary.read)
  | 14 => return .decrement (← Binary.read)
  | 15 => return .increment16 (← Binary.read)
  | 16 => return .decrement16 (← Binary.read)
  | 17 => return .rotateA (← Binary.read)
  | 18 => return .shift (← Binary.read) (← Binary.read)
  | 19 => return .bit (← Binary.read) (← Binary.read) (← Binary.read)
  | 20 => return .flagSet (← Binary.read)
  | 21 => return .complement
  | 22 => return .decimalAdjust
  | 23 => return .compound (← nested) (← nested)
  | 24 => return .jump (← Binary.read) (← Binary.read)
  | 25 => return .jumpRelative (← Binary.read) (← Binary.read)
  | 26 => return .call (← Binary.read) (← Binary.read)
  | 27 => return .ret (← Binary.read)
  | 28 => return .retInterrupt
  | 29 => return .restart (← Binary.read)
  | 30 => return .halt
  | 31 => return .stop
  | 32 => return .disableInterrupts
  | 33 => return .enableInterrupts
  | 34 => return .unimplemented (← Binary.read) (← Binary.read)
  | _ => Reader.refuse

/-- An event whose compounds nest less deep than the given bound. -/
def readNested : Nat → Reader Event
  | 0 => Reader.refuse
  | depth + 1 => do
    let index ← Binary.readIndex
    readFields (readNested depth) index

/-- An event of any depth: there is no room for one that nests deeper than it
has bytes. -/
def read : Reader Event := fun bytes => readNested (bytes.length + 1) bytes

end Event

instance : Binary Event := ⟨Event.write, Event.read⟩

end Lr35902
