import Lr35902.ByteQueue

/-! The ways to get at the bytes of a queue agree. Single reads one after the
other are the measure of the others: a read of many bytes gives what they give
and leaves what they leave, a look ahead sees what they would come to, and a word
is two of them, low byte first. Only where there are too few bytes do they part:
the single reads drain the queue before they fail, and the others leave it. -/
namespace Lr35902.SingleReads
open ByteQueue

variable {queue : ByteQueue} {count offset : Nat}

/-- The outcomes of single reads made one after the other, and the queue after
them. A read that fails does not keep the next one from being made. -/
def getEach : Nat → ByteQueue → List (Except Underflow UInt8) × ByteQueue
  | 0, queue => ([], queue)
  | count + 1, queue =>
    let later := getEach count (ByteQueue.get queue).2
    ((ByteQueue.get queue).1 :: later.1, later.2)

theorem getEach_empty (count : Nat) :
    getEach count .empty = (List.replicate count (.error ⟨1, 0⟩), .empty) := by
  induction count with
  | zero => rfl
  | succ count ih =>
    change (.error ⟨1, 0⟩ :: (getEach count .empty).1, (getEach count .empty).2) = _
    rw [ih, List.replicate_succ]

theorem getEach_cons (count : Nat) (first : UInt8) (rest : List UInt8) :
    getEach (count + 1) ⟨first :: rest⟩ =
      (.ok first :: (getEach count ⟨rest⟩).1, (getEach count ⟨rest⟩).2) := rfl

/-- The queue is read in order, and once it is drained every read is refused. -/
theorem getEach_eq (count : Nat) (bytes : List UInt8) :
    getEach count ⟨bytes⟩ =
      ((bytes.take count).map .ok ++ List.replicate (count - bytes.length) (.error ⟨1, 0⟩),
        ⟨bytes.drop count⟩) := by
  induction bytes generalizing count with
  | nil => simpa [empty] using getEach_empty count
  | cons first rest ih =>
    cases count with
    | zero => simp [getEach]
    | succ count => simp [getEach_cons, ih]

theorem getEach_enough (enough : count ≤ queue.length) :
    getEach count queue = ((queue.bytes.take count).map .ok, ⟨queue.bytes.drop count⟩) := by
  have refused : count - queue.bytes.length = 0 := Nat.sub_eq_zero_of_le enough
  rw [getEach_eq, refused, List.replicate_zero, List.append_nil]

theorem getEach_short (short : queue.length < count) :
    getEach count queue =
      (queue.bytes.map .ok ++ List.replicate (count - queue.length) (.error ⟨1, 0⟩), .empty) := by
  have within : queue.bytes.length ≤ count := Nat.le_of_lt short
  rw [getEach_eq, List.take_of_length_le within, List.drop_of_length_le within]
  rfl

/-- What a look ahead sees is what the single reads come to after so many. They
tell a lack of bytes in their own way, as one byte asked of none. -/
theorem getElem_getEach (within : offset < count) (bytes : List UInt8) :
    (getEach count ⟨bytes⟩).1[offset]? =
      some ((byteAt ⟨bytes⟩ offset).mapError fun _ => ⟨1, 0⟩) := by
  induction bytes generalizing count offset with
  | nil =>
    have drained := getEach_empty count
    simp only [empty] at drained
    rw [drained, List.getElem?_replicate, if_pos within]
    rfl
  | cons first rest ih =>
    cases count with
    | zero => exact absurd within (Nat.not_lt_zero offset)
    | succ count =>
      rw [getEach_cons]
      cases offset with
      | zero => rfl
      | succ offset =>
        rw [List.getElem?_cons_succ, ih (Nat.lt_of_succ_lt_succ within)]
        unfold byteAt
        rw [List.getElem?_cons_succ]
        cases rest[offset]? <;> rfl

/-- A look at an offset and the single read after so many come to the same byte. -/
theorem peekAt_eq_ok_iff {offset : UInt64} {byte : UInt8}
    (countable : offset.toNat + 1 < UInt64.size) :
    queue.peekAt offset = .ok (.ok byte) ↔
      (getEach (offset.toNat + 1) queue).1[offset.toNat]? = some (.ok byte) := by
  rw [peekAt_countable countable, getElem_getEach (Nat.lt_succ_self _), Option.some.injEq,
    mapError_eq_ok_iff, Except.ok.injEq]

/-! ### Words -/

/-- A queue is too short for a word or begins with two bytes. -/
theorem short_or_pair (queue : ByteQueue) :
    queue.length < 2 ∨ ∃ low high later, queue = ⟨low :: high :: later⟩ := by
  obtain ⟨bytes⟩ := queue
  match bytes with
  | [] => exact .inl Nat.zero_lt_two
  | [byte] => exact .inl Nat.one_lt_two
  | low :: high :: later => exact .inr ⟨low, high, later, rfl⟩

/-- A word is read exactly where two bytes are, and it is made of the two. -/
theorem getWord_eq_ok_iff {rest : ByteQueue} {word : UInt16} :
    getWord queue = (.ok word, rest) ↔
      ∃ first second, getBytes 2 queue = (.ok [first, second], rest) ∧
        word.toNat = first.toNat + 256 * second.toNat := by
  rcases short_or_pair queue with short | ⟨low, high, later, rfl⟩
  · rw [getWord_short short, getBytes_short short]
    constructor
    · exact nofun
    · rintro ⟨first, second, refused, -⟩
      cases refused
  · rw [getWord_two, getBytes_two]
    constructor
    · intro taken
      cases taken
      exact ⟨low, high, rfl, LittleEndian.toNat_toWord low high⟩
    · rintro ⟨first, second, taken, value⟩
      cases taken
      rw [← LittleEndian.toNat_toWord, UInt16.toNat_inj] at value
      rw [value]

theorem getWord_eq_error_iff {rest : ByteQueue} {underflow : Underflow} :
    getWord queue = (.error underflow, rest) ↔ getBytes 2 queue = (.error underflow, rest) := by
  rcases short_or_pair queue with short | ⟨low, high, later, rfl⟩
  · rw [getWord_short short, getBytes_short short]
    constructor <;>
    · intro refused
      cases refused
      rfl
  · rw [getWord_two, getBytes_two]
    constructor <;> exact nofun

/-- **Reads of many bytes, single reads and looks ahead agree.** As long as there are
enough bytes, a read of many gives the bytes of as many single reads and leaves the
same queue, and looks ahead saw these bytes before. With too few, it tells how many
were asked for and how many there are and leaves the queue alone, while the single
reads give all bytes there are and are then refused. A look at any offset but the
greatest sees the byte that the single read after so many comes to; if there is
none, it tells how many bytes it takes to get there. A look at the next byte is a
read that leaves it. And a word is read exactly where two bytes are, the first of
which is the low one. -/
theorem reads_agree (queue : ByteQueue) :
    (∀ count, count ≤ queue.length →
      ∃ values rest, getBytes count queue = (.ok values, rest) ∧ values.length = count ∧
        getEach count queue = (values.map .ok, rest) ∧
        ∀ offset : UInt64, offset.toNat + 1 < UInt64.size → offset.toNat < count →
          ∃ byte, values[offset.toNat]? = some byte ∧ queue.peekAt offset = .ok (.ok byte)) ∧
    (∀ count, queue.length < count →
      getBytes count queue = (.error ⟨count, queue.length⟩, queue) ∧
        getEach count queue =
          (queue.bytes.map .ok ++ List.replicate (count - queue.length) (.error ⟨1, 0⟩), .empty)) ∧
    (∀ offset : UInt64, offset.toNat + 1 < UInt64.size →
      (∀ byte, queue.peekAt offset = .ok (.ok byte) ↔
        (getEach (offset.toNat + 1) queue).1[offset.toNat]? = some (.ok byte)) ∧
      ((∀ byte, queue.peekAt offset ≠ .ok (.ok byte)) →
        queue.peekAt offset = .ok (.error ⟨offset.toNat + 1, queue.length⟩))) ∧
    queue.peek = (ByteQueue.get queue).1 ∧
    (∀ word rest, getWord queue = (.ok word, rest) ↔
      ∃ first second, getBytes 2 queue = (.ok [first, second], rest) ∧
        word.toNat = first.toNat + 256 * second.toNat) ∧
    ∀ underflow rest,
      getWord queue = (.error underflow, rest) ↔ getBytes 2 queue = (.error underflow, rest) := by
  refine ⟨?_, ?_, ?_, peek_eq_get queue, ?_, ?_⟩
  · intro count enough
    refine ⟨_, _, getBytes_enough enough, List.length_take_of_le enough, getEach_enough enough, ?_⟩
    intro offset countable within
    have inside : offset.toNat < queue.bytes.length := Nat.lt_of_lt_of_le within enough
    have here := List.getElem?_eq_getElem inside
    refine ⟨queue.bytes[offset.toNat], ?_, ?_⟩
    · rw [List.getElem?_take_of_lt within, here]
    · rw [peekAt_countable countable, byteAt_eq_ok_iff.mpr here]
  · intro count short
    exact ⟨getBytes_short short, getEach_short short⟩
  · intro offset countable
    refine ⟨fun byte => peekAt_eq_ok_iff countable, fun unseen => ?_⟩
    cases seen : queue.byteAt offset.toNat with
    | ok byte => exact absurd (by rw [peekAt_countable countable, seen]) (unseen byte)
    | error underflow => rw [peekAt_countable countable, seen, (byteAt_eq_error_iff.mp seen).2]
  · intro word rest
    exact getWord_eq_ok_iff
  · intro underflow rest
    exact getWord_eq_error_iff

end Lr35902.SingleReads
