import Lr35902.Datum
import Lr35902.Error
import Lr35902.LittleEndian

/-! A first-in first-out queue of instruction bytes, between whatever fetches
them and the decoder. A read that asks for more than the queue holds takes
nothing. -/
namespace Lr35902

/-- The bytes still queued, the next one first. -/
structure ByteQueue where
  bytes : List UInt8
  deriving DecidableEq

/-- A read off the front of a queue: a value or a lack of bytes, and in either
case the queue that is left. Reads in sequence that fail in the end do not give
back what the first of them took. -/
abbrev Fetch (α : Type) := ExceptT Underflow (StateM ByteQueue) α

instance : Described ByteQueue where
  datum queue := .record "ByteStream" [("queue", datum queue.bytes)]

namespace ByteQueue

def empty : ByteQueue := ⟨[]⟩

/-- The number of bytes queued. -/
def length (queue : ByteQueue) : Nat := queue.bytes.length

def isEmpty (queue : ByteQueue) : Bool := queue.bytes.isEmpty

/-- One more byte at the end. -/
def add (queue : ByteQueue) (byte : UInt8) : ByteQueue := ⟨queue.bytes ++ [byte]⟩

/-- More bytes at the end, in order. -/
def append (queue : ByteQueue) (bytes : List UInt8) : ByteQueue := ⟨queue.bytes ++ bytes⟩

theorem add_eq_append (queue : ByteQueue) (byte : UInt8) : queue.add byte = queue.append [byte] :=
  rfl

@[simp] theorem bytes_append (queue : ByteQueue) (more : List UInt8) :
    (queue.append more).bytes = queue.bytes ++ more := rfl

@[simp] theorem length_append (queue : ByteQueue) (more : List UInt8) :
    (queue.append more).length = queue.length + more.length := by
  simp [length]

@[simp] theorem append_nil (queue : ByteQueue) : queue.append [] = queue := by
  simp [append]

@[simp] theorem append_append (queue : ByteQueue) (first second : List UInt8) :
    (queue.append first).append second = queue.append (first ++ second) := by
  simp [append]

/-- The byte some places behind the front, left where it is. -/
def byteAt (queue : ByteQueue) (offset : Nat) : Except Underflow UInt8 :=
  match queue.bytes[offset]? with
  | some byte => .ok byte
  | none => .error ⟨offset + 1, queue.length⟩

/-- The next byte, left where it is. -/
def peek (queue : ByteQueue) : Except Underflow UInt8 := queue.byteAt 0

/-- The byte at a machine-word offset, left where it is. The count of bytes up
to it is one more than the offset and has to be a machine word as well, so the
greatest offset of all is a fault. -/
def peekAt (queue : ByteQueue) (offset : UInt64) : Except Fault (Except Underflow UInt8) :=
  if offset.toNat + 1 < UInt64.size then .ok (queue.byteAt offset.toNat)
  else .error .additionOverflow

/-- Takes the next byte. -/
def get : Fetch UInt8 := fun queue =>
  match queue.bytes with
  | [] => (.error ⟨1, 0⟩, queue)
  | first :: rest => (.ok first, ⟨rest⟩)

/-- Takes the next bytes, all of them or none. -/
def getBytes (count : Nat) : Fetch (List UInt8) := fun queue =>
  if queue.length < count then (.error ⟨count, queue.length⟩, queue)
  else (.ok (queue.bytes.take count), ⟨queue.bytes.drop count⟩)

/-- Takes two bytes as a word, low byte first. -/
def getWord : Fetch UInt16 := do
  let bytes ← getBytes 2
  return LittleEndian.toWord bytes

section
variable {queue : ByteQueue} {count offset : Nat}

theorem byteAt_eq_ok_iff {byte : UInt8} :
    queue.byteAt offset = .ok byte ↔ queue.bytes[offset]? = some byte := by
  unfold byteAt
  cases queue.bytes[offset]? <;> simp

theorem byteAt_eq_error_iff {underflow : Underflow} :
    queue.byteAt offset = .error underflow ↔
      queue.length ≤ offset ∧ underflow = ⟨offset + 1, queue.length⟩ := by
  rw [length, ← List.getElem?_eq_none_iff]
  unfold byteAt
  cases queue.bytes[offset]? <;> simp [length, eq_comm]

/-- A byte is seen exactly where the queue holds one. -/
theorem byteAt_succeeds_iff : (∃ byte, queue.byteAt offset = .ok byte) ↔ offset < queue.length := by
  simp only [byteAt_eq_ok_iff]
  constructor
  · rintro ⟨byte, found⟩
    exact (List.getElem?_eq_some_iff.mp found).1
  · intro inside
    exact ⟨_, List.getElem?_eq_getElem inside⟩

theorem peekAt_countable {offset : UInt64} (countable : offset.toNat + 1 < UInt64.size)
    (queue : ByteQueue) : queue.peekAt offset = .ok (queue.byteAt offset.toNat) :=
  if_pos countable

theorem peekAt_uncountable {offset : UInt64} (uncountable : ¬ offset.toNat + 1 < UInt64.size)
    (queue : ByteQueue) : queue.peekAt offset = .error .additionOverflow :=
  if_neg uncountable

/-- A look at the next byte is a read that leaves it. -/
theorem peek_eq_get (queue : ByteQueue) : queue.peek = (get queue).1 := by
  obtain ⟨bytes⟩ := queue
  cases bytes <;> rfl

theorem getBytes_enough (enough : count ≤ queue.length) :
    getBytes count queue = (.ok (queue.bytes.take count), ⟨queue.bytes.drop count⟩) :=
  if_neg (Nat.not_lt.mpr enough)

theorem getBytes_short (short : queue.length < count) :
    getBytes count queue = (.error ⟨count, queue.length⟩, queue) :=
  if_pos short

theorem getBytes_two (low high : UInt8) (rest : List UInt8) :
    getBytes 2 ⟨low :: high :: rest⟩ = (.ok [low, high], ⟨rest⟩) :=
  getBytes_enough (Nat.le_add_left 2 rest.length)

theorem getWord_two (low high : UInt8) (rest : List UInt8) :
    getWord ⟨low :: high :: rest⟩ = (.ok (LittleEndian.toWord [low, high]), ⟨rest⟩) := rfl

theorem getWord_short (short : queue.length < 2) :
    getWord queue = (.error ⟨2, queue.length⟩, queue) := by
  obtain ⟨bytes⟩ := queue
  match bytes, short with
  | [], _ => rfl
  | [byte], _ => rfl

end

end ByteQueue

end Lr35902
