import Lr35902.Event.Leaves
import Lr35902.Proofs.OctalChart

/-! A decoder of single instructions frames its input exactly. It takes a whole
instruction or nothing, it looks at no byte beyond the instruction, and it
refuses before the first fetch and never between two of them. -/
namespace Lr35902.Framing
open Instruction Instruction.Octal

private theorem arithmetic_simple (digit : Nat) (plain : Operand) (withCarry : Carried) :
    (arithmetic digit plain withCarry).IsSimple := by
  intro first second spelled
  unfold arithmetic at spelled
  split at spelled <;> cases spelled

theorem extendedTable_simple (opcode : UInt8) : (extendedTable opcode).IsSimple := by
  intro first second spelled
  simp only [extendedTable] at spelled
  split at spelled <;> cases spelled

private theorem firstBlock_simple (y z : Nat) (byte : UInt8) (word : UInt16) :
    (firstBlock y z byte word).IsSimple := by
  intro first second spelled
  unfold firstBlock at spelled
  repeat' split at spelled
  all_goals cases spelled

/-- The last block spells one compound, the load of the stack pointer with a
displacement. -/
private theorem compound_of_lastBlock {opcode byte : UInt8} {y z : Nat} {word : UInt16}
    {first second : Event} (spelled : lastBlock opcode y z byte word = .compound first second) :
    ∃ offset, first = .load16 (.register .hl) (.registerOffset .sp offset) ∧
      second = .flagSet .addSp := by
  unfold lastBlock at spelled
  split at spelled
  case h_4 =>
    cases spelled
    exact ⟨signed byte, rfl, rfl⟩
  case h_17 => exact absurd spelled (extendedTable_simple byte first second)
  case h_23 => exact absurd spelled (arithmetic_simple _ _ _ first second)
  all_goals
    repeat' split at spelled
    all_goals cases spelled

/-- That is the only compound in the instruction set. -/
theorem compound_of_meaning {opcode : UInt8} {following : List UInt8} {first second : Event}
    (spelled : meaning opcode following = .compound first second) :
    ∃ offset, first = .load16 (.register .hl) (.registerOffset .sp offset) ∧
      second = .flagSet .addSp := by
  simp only [meaning] at spelled
  split at spelled
  · exact absurd spelled (firstBlock_simple _ _ _ _ first second)
  · split at spelled <;> cases spelled
  · exact absurd spelled (arithmetic_simple _ _ _ first second)
  · exact compound_of_lastBlock spelled

/-- The parts of that compound claim no flag in common. -/
theorem combine_stackAddress (offset : Int8) :
    Event.combine (.load16 (.register .hl) (.registerOffset .sp offset)) (.flagSet .addSp) =
      .ok (.compound (.load16 (.register .hl) (.registerOffset .sp offset)) (.flagSet .addSp)) :=
  rfl

/-- No instruction makes a compound that would be refused. -/
theorem event_combines {part : List UInt8} {first second : Event}
    (made : Instruction.event part = .compound first second) :
    first.combine second = .ok (.compound first second) := by
  cases part with
  | nil => cases made
  | cons opcode following =>
    have spelled : meaning opcode following = .compound first second := by
      rw [← OctalChart.fill_recipe]
      exact made
    obtain ⟨offset, rfl, rfl⟩ := compound_of_meaning spelled
    exact combine_stackAddress offset

/-- A queue holds enough for its first instruction when it has a first byte
and as many bytes as that one calls for. -/
theorem needed_le_length_iff (bytes : List UInt8) :
    needed bytes ≤ bytes.length ↔
      ∃ first rest, bytes = first :: rest ∧ Instruction.length first ≤ bytes.length := by
  cases bytes with
  | nil => simp [needed]
  | cons first rest => simp [needed]

/-- Decoding succeeds exactly when the queue begins with a whole instruction. -/
theorem decodes_iff (queue : ByteQueue) :
    (∃ event, (decodeEvent queue).result = .ok event) ↔
      needed queue.bytes ≤ queue.length := by
  obtain ⟨bytes⟩ := queue
  rcases tail_or_instruction bytes with incomplete | ⟨part, later, whole, rfl⟩
  · have short := isTail_iff.mp incomplete
    rw [decodeEvent_tail incomplete]
    constructor
    · rintro ⟨event, decoded⟩
      cases decoded
    · intro enough
      exact absurd enough (Nat.not_le.mpr short)
  · rw [decodeEvent_instruction whole, whole.needed_append]
    constructor
    · intro _
      simp [ByteQueue.length]
    · intro _
      exact ⟨_, rfl⟩

/-- A decoded event is the one of the first instruction in the queue. -/
theorem decodeEvent_of_ok {queue : ByteQueue} {event : Event}
    (decoded : (decodeEvent queue).result = .ok event) :
    ∃ part later, IsInstruction part ∧ queue = ⟨part ++ later⟩ ∧
      event = Instruction.event part := by
  obtain ⟨bytes⟩ := queue
  rcases tail_or_instruction bytes with incomplete | ⟨part, later, whole, rfl⟩
  · rw [decodeEvent_tail incomplete] at decoded
    cases decoded
  · rw [decodeEvent_instruction whole] at decoded
    cases decoded
    exact ⟨part, later, whole, rfl, rfl⟩

/-- Whatever is refused is left in place, and the refusal tells how much is
there and how much is needed. -/
theorem decodeEvent_of_error {queue : ByteQueue} {underflow : Underflow}
    (refused : (decodeEvent queue).result = .error underflow) :
    decodeEvent queue = ⟨.error ⟨needed queue.bytes, queue.length⟩, queue, []⟩ := by
  obtain ⟨bytes⟩ := queue
  rcases tail_or_instruction bytes with incomplete | ⟨part, later, whole, rfl⟩
  · exact decodeEvent_tail incomplete
  · rw [decodeEvent_instruction whole] at refused
    cases refused

/-- **Decoding is framed exactly.** It succeeds if and only if the queue begins
with a whole instruction. Then it takes that instruction and nothing else, and
gives the same event for these bytes whatever follows them; if that event is a
compound, its parts may be combined. Otherwise it says how many bytes are there
and how many are needed, leaves the queue alone and records nothing. No fetch
can fail on the way, because every opcode fetches as many bytes as the table of
lengths announces. -/
theorem decodeEvent_whole_or_nothing (queue : ByteQueue) :
    ((∃ event, (decodeEvent queue).result = .ok event) ↔
      ∃ first rest, queue.bytes = first :: rest ∧ Instruction.length first ≤ queue.length) ∧
    (∀ event, (decodeEvent queue).result = .ok event →
      (decodeEvent queue).rest.bytes = queue.bytes.drop (needed queue.bytes) ∧
      (∀ later, decodeEvent ⟨queue.bytes.take (needed queue.bytes) ++ later⟩ =
        ⟨.ok event, ⟨later⟩, event.records⟩) ∧
      ∀ first second, event = .compound first second → first.combine second = .ok event) ∧
    (∀ underflow, (decodeEvent queue).result = .error underflow →
      decodeEvent queue = ⟨.error ⟨needed queue.bytes, queue.length⟩, queue, []⟩) ∧
    ∀ opcode following later, following.length + 1 = Instruction.length opcode →
      ∃ event, fetchEvent ⟨opcode :: following ++ later⟩ = (.ok event, ⟨later⟩) := by
  refine ⟨?_, ?_, ?_, ?_⟩
  · exact (decodes_iff queue).trans (needed_le_length_iff queue.bytes)
  · intro event decoded
    obtain ⟨part, later, whole, rfl, rfl⟩ := decodeEvent_of_ok decoded
    rw [whole.needed_append, List.take_left, List.drop_left]
    refine ⟨?_, decodeEvent_instruction whole, ?_⟩
    · rw [decodeEvent_instruction whole]
    · intro first second made
      rw [made]
      exact event_combines made
  · intro underflow refused
    exact decodeEvent_of_error refused
  · intro opcode following later size
    have whole : IsInstruction (opcode :: following) := by
      simpa [isInstruction_iff, needed] using size
    exact ⟨_, fetchEvent_instruction whole later⟩

end Lr35902.Framing
