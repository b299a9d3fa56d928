import Lr35902.Proofs.Counting

/-! What becomes of a caller who asks for more than is queued. The demand is
refused as a lack of bytes, and nothing but its own size can make it a fault: a
look at the greatest offset of all, and a promise of more instructions than room
can be set aside for, are faults whatever the queue holds. -/
namespace Lr35902.Demands
open Instruction Segments Counting

variable {queue : ByteQueue} {offset count : UInt64}

/-! ### Looking ahead -/

/-- Whether a look is a fault is no question of the queue. -/
theorem peekAt_decided_iff :
    (∃ seen, queue.peekAt offset = .ok seen) ↔ offset.toNat + 1 < UInt64.size := by
  by_cases countable : offset.toNat + 1 < UInt64.size
  · simp [ByteQueue.peekAt_countable countable, countable]
  · simp [ByteQueue.peekAt_uncountable countable, countable]

/-! ### Decoding a promised number -/

/-- The byte string begins with so many whole instructions. -/
def BeginsWith (count : Nat) (bytes : List UInt8) : Prop :=
  ∃ (parts : List (List UInt8)) (later : List UInt8), bytes = parts.flatten ++ later ∧
    parts.length = count ∧ ∀ part ∈ parts, IsInstruction part

/-- So many instructions are decoded exactly if the queue begins with them. -/
theorem decodeCount_succeeds_iff {count : Nat} :
    (∃ events, (decodeCount count queue).result = .ok events) ↔
      BeginsWith count queue.bytes := by
  obtain ⟨bytes⟩ := queue
  have divided := segmentation_segments bytes
  constructor
  · rintro ⟨events, decoded⟩
    by_cases within : count ≤ (segments bytes).1.length
    · refine ⟨(segments bytes).1.take count, _, divided.cut count, ?_, ?_⟩
      · exact List.length_take_of_le within
      · exact fun part member => divided.whole part (List.mem_of_mem_take member)
    · rw [decodeCount_beyond divided (Nat.lt_of_not_le within)] at decoded
      cases decoded
  · rintro ⟨parts, later, rfl, rfl, whole⟩
    rw [decodeCount_parts whole later]
    exact ⟨_, rfl⟩

/-- The refusal is the one that the bytes left behind meet when they are decoded
by themselves. -/
theorem decodeEvent_of_refused {count : Nat} {underflow : Underflow}
    (refused : (decodeCount count queue).result = .error underflow) :
    (decodeEvent (decodeCount count queue).rest).result = .error underflow := by
  obtain ⟨bytes⟩ := queue
  have divided := segmentation_segments bytes
  by_cases within : count ≤ (segments bytes).1.length
  · rw [decodeCount_within divided within] at refused
    cases refused
  · rw [decodeCount_beyond divided (Nat.lt_of_not_le within)] at refused ⊢
    cases refused
    rw [decodeEvent_tail divided.incomplete]

/-- Whether a promise is a fault is no question of the queue either. -/
theorem decodeEvents_decided_iff :
    (∃ decoding, decodeEvents count queue = .begun decoding) ↔ Reservable count.toNat := by
  by_cases room : Reservable count.toNat
  · simp [decodeEvents_reserved room, Attempt.begun_inj, room]
  · simp [decodeEvents_unreserved room, Attempt.begun, room]

/-- **Demands are met or refused, unless their size alone is a fault.** A look ahead
is decided for every offset but the greatest: it shows a byte exactly where the
queue holds one, and otherwise tells how many bytes it would have taken and how
many there are. A promised number of instructions is decided exactly if room can
be set aside for so many events: it is kept exactly if the queue begins with so
many whole instructions, and otherwise refused for the first that is not complete. A
promise that is a fault takes nothing and records nothing. -/
theorem demands_met_or_refused (queue : ByteQueue) :
    (∀ offset : UInt64,
      ((∃ seen, queue.peekAt offset = .ok seen) ↔ offset.toNat + 1 < UInt64.size) ∧
      (∀ fault, queue.peekAt offset = .error fault → fault = .additionOverflow) ∧
      ∀ seen, queue.peekAt offset = .ok seen →
        ((∃ byte, seen = .ok byte) ↔ offset.toNat < queue.length) ∧
        ∀ underflow, seen = .error underflow → underflow = ⟨offset.toNat + 1, queue.length⟩) ∧
    ∀ count : UInt64,
      ((∃ decoding, decodeEvents count queue = .begun decoding) ↔ Reservable count.toNat) ∧
      (∀ fault, (decodeEvents count queue).verdict = .error fault →
        fault = .capacityOverflow ∧ decodeEvents count queue = ⟨.error fault, queue, []⟩) ∧
      ∀ decoding, decodeEvents count queue = .begun decoding →
        ((∃ events, decoding.result = .ok events) ↔ BeginsWith count.toNat queue.bytes) ∧
        ∀ underflow, decoding.result = .error underflow →
          (decodeEvent decoding.rest).result = .error underflow := by
  constructor
  · intro offset
    refine ⟨peekAt_decided_iff, ?_, ?_⟩
    · intro fault failed
      by_cases countable : offset.toNat + 1 < UInt64.size
      · rw [ByteQueue.peekAt_countable countable] at failed
        cases failed
      · rw [ByteQueue.peekAt_uncountable countable] at failed
        cases failed
        rfl
    · intro seen decided
      have countable := peekAt_decided_iff.mp ⟨seen, decided⟩
      rw [ByteQueue.peekAt_countable countable] at decided
      cases decided
      refine ⟨ByteQueue.byteAt_succeeds_iff, ?_⟩
      intro underflow short
      exact (ByteQueue.byteAt_eq_error_iff.mp short).2
  · intro count
    refine ⟨decodeEvents_decided_iff, ?_, ?_⟩
    · intro fault failed
      by_cases room : Reservable count.toNat
      · rw [decodeEvents_reserved room] at failed
        cases failed
      · rw [decodeEvents_unreserved room] at failed ⊢
        cases failed
        exact ⟨rfl, rfl⟩
    · intro decoding decided
      have room := decodeEvents_decided_iff.mp ⟨decoding, decided⟩
      rw [decodeEvents_reserved room, Attempt.begun_inj] at decided
      cases decided
      exact ⟨decodeCount_succeeds_iff, fun underflow => decodeEvent_of_refused⟩

/-- The greatest demands on an empty queue are faults, although a lack of bytes is
all that is wrong with them. -/
theorem greatest_demands_fault :
    ByteQueue.empty.peekAt 0xFFFFFFFFFFFFFFFF = .error .additionOverflow ∧
      decodeEvents 0xFFFFFFFFFFFFFFFF .empty = ⟨.error .capacityOverflow, .empty, []⟩ := by
  constructor
  · exact ByteQueue.peekAt_uncountable (by decide) .empty
  · exact decodeEvents_unreserved (by decide) .empty

end Lr35902.Demands
