import Lr35902.Decode
import Lr35902.Ram

/-! A queue and a memory used together, one action at a time. An action ends
with an answer, with a lack of bytes, or with a fault, and however it ends, the
session goes on with the queue and the memory that it leaves. One copy of each
can be set aside and brought back. -/
namespace Lr35902

/-- What can be asked of a queue. -/
inductive QueueAction where
  | peek
  | peekAt (offset : UInt64)
  | get
  | getBytes (count : Nat)
  | getWord
  | add (byte : UInt8)
  | append (bytes : List UInt8)
  | display
  | decodeEvent
  | decodeEvents (count : UInt64)
  | decodeUntilEmpty
  | save
  | restore
  | equalsSaved

/-- What can be asked of a memory. -/
inductive RamAction where
  | size
  | readByte (address : UInt64)
  | writeByte (address : UInt64) (byte : UInt8)
  | readBytes (address : UInt64) (length : Nat)
  | writeBytes (address : UInt64) (bytes : List UInt8)
  | readWord (address : UInt64)
  | writeWord (address : UInt64) (value : UInt16)
  | fetchInto (address : UInt64) (count : Nat)
  | save
  | restore
  | equalsSaved

inductive Action where
  | queue (action : QueueAction)
  | ram (action : RamAction)

/-- What an action that succeeds reports. -/
inductive Answer where
  | done
  | byte (value : UInt8)
  | word (value : UInt16)
  | count (value : Nat)
  | bytes (values : List UInt8)
  | truth (value : Bool)
  | text (value : String)
  | event (value : Event)
  | events (values : List Event)

/-- How an action ends, and the records made while it ran. -/
structure Report where
  verdict : Except Fault (Except Underflow Answer)
  log : List LogRecord

namespace Report

def ok (answer : Answer) : Report := ⟨.ok (.ok answer), []⟩

def short (underflow : Underflow) : Report := ⟨.ok (.error underflow), []⟩

def fault (fault : Fault) : Report := ⟨.error fault, []⟩

/-- The report of a decoding. -/
def ofDecoding {α : Type} (answer : α → Answer) (decoding : Decoding α) : Report :=
  ⟨.ok (answer <$> decoding.result), decoding.log⟩

def ofAttempt {α : Type} (answer : α → Answer) (attempt : Attempt α) : Report :=
  ⟨(answer <$> ·) <$> attempt.verdict, attempt.log⟩

/-- The report of a change that tells no more than that it is done. -/
def ofChange (outcome : Except Fault Unit) : Report := ⟨(fun _ => .ok .done) <$> outcome, []⟩

end Report

/-- The state between two actions. -/
structure Session (size : Nat) where
  queue : ByteQueue
  ram : Ram size
  savedQueue : ByteQueue
  savedRam : Ram size

namespace Session

variable {size : Nat}

/-- A session over a queue and zeroed memory; the copies set aside are those of
the start. -/
def start (size : Nat) (queue : ByteQueue) : Session size :=
  ⟨queue, .zeroed size, queue, .zeroed size⟩

/-- A look at the queue that takes nothing. -/
def look {α : Type} (session : Session size) (answer : α → Answer) :
    Except Underflow α → Session size × Report
  | .ok value => (session, .ok (answer value))
  | .error underflow => (session, .short underflow)

/-- A read off the front of the queue. -/
def take {α : Type} (session : Session size) (answer : α → Answer) (fetch : Fetch α) :
    Session size × Report :=
  match fetch session.queue with
  | (.ok value, rest) => ({ session with queue := rest }, .ok (answer value))
  | (.error underflow, rest) => ({ session with queue := rest }, .short underflow)

/-- The queue left by a decoding takes the place of the current one. -/
def decode {α : Type} (session : Session size) (answer : α → Answer) (decoding : Decoding α) :
    Session size × Report :=
  ({ session with queue := decoding.rest }, .ofDecoding answer decoding)

def attempt {α : Type} (session : Session size) (answer : α → Answer) (attempt : Attempt α) :
    Session size × Report :=
  ({ session with queue := attempt.rest }, .ofAttempt answer attempt)

def performOnQueue (session : Session size) : QueueAction → Session size × Report
  | .peek => session.look .byte session.queue.peek
  | .peekAt offset =>
    match session.queue.peekAt offset with
    | .ok seen => session.look .byte seen
    | .error fault => (session, .fault fault)
  | .get => session.take .byte ByteQueue.get
  | .getBytes count => session.take .bytes (ByteQueue.getBytes count)
  | .getWord => session.take .word ByteQueue.getWord
  | .add byte => ({ session with queue := session.queue.add byte }, .ok .done)
  | .append bytes => ({ session with queue := session.queue.append bytes }, .ok .done)
  | .display => (session, .ok (.text (describe session.queue)))
  | .decodeEvent => session.decode .event (Lr35902.decodeEvent session.queue)
  | .decodeEvents count => session.attempt .events (Lr35902.decodeEvents count session.queue)
  | .decodeUntilEmpty => session.decode .events (Lr35902.decodeUntilEmpty session.queue)
  | .save => ({ session with savedQueue := session.queue }, .ok .done)
  | .restore => ({ session with queue := session.savedQueue }, .ok .done)
  | .equalsSaved => (session, .ok (.truth (session.queue = session.savedQueue)))

/-- A read of the memory. -/
def read {α : Type} (session : Session size) (answer : α → Answer) :
    Except Fault α → Session size × Report
  | .ok value => (session, .ok (answer value))
  | .error fault => (session, .fault fault)

/-- A change of the memory. The session goes on with what it leaves. -/
def write (session : Session size) (change : Change (Ram size) Unit) : Session size × Report :=
  let changed := change session.ram
  ({ session with ram := changed.2 }, .ofChange changed.1)

/-- A change of the queue by an action on the memory. -/
def fill (session : Session size) (change : Change ByteQueue Unit) : Session size × Report :=
  let changed := change session.queue
  ({ session with queue := changed.2 }, .ofChange changed.1)

def performOnRam (session : Session size) : RamAction → Session size × Report
  | .size => (session, .ok (.count size))
  | .readByte address => session.read .byte (session.ram.readByte address)
  | .writeByte address byte => session.write (Ram.writeByte address byte)
  | .readBytes address length => session.read .bytes (session.ram.readBytes address length)
  | .writeBytes address bytes => session.write (Ram.writeBytes address bytes)
  | .readWord address => session.read .word (session.ram.readWord address)
  | .writeWord address value => session.write (Ram.writeWord address value)
  | .fetchInto address count => session.fill (session.ram.fetchInto address count)
  | .save => ({ session with savedRam := session.ram }, .ok .done)
  | .restore => ({ session with ram := session.savedRam }, .ok .done)
  | .equalsSaved => (session, .ok (.truth (session.ram = session.savedRam)))

/-- The state after an action, and its report. -/
def perform (session : Session size) : Action → Session size × Report
  | .queue action => session.performOnQueue action
  | .ram action => session.performOnRam action

end Session

end Lr35902
