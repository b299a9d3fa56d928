import Lr35902.Proofs.Framing

/-! A byte string has one division into instructions, and decoding until the
queue is empty finds it. The events are those of the instructions, each decoded
for itself; what is left in the queue is the tail, and the lack of bytes that is
reported is the lack in that tail. -/
namespace Lr35902.Segments
open Instruction

/-- Induction along the division of a byte string: from the tail, by putting one
instruction after the other in front. -/
@[elab_as_elim]
theorem instruction_induction {motive : List UInt8 → Prop} (bytes : List UInt8)
    (tail : ∀ tail, IsTail tail → motive tail)
    (instruction : ∀ part later, IsInstruction part → motive later → motive (part ++ later)) :
    motive bytes := by
  induction size : bytes.length using Nat.strongRecOn generalizing bytes with
  | ind size ih =>
    rcases tail_or_instruction bytes with incomplete | ⟨part, later, whole, rfl⟩
    · exact tail bytes incomplete
    · have positive := List.length_pos_iff.mpr whole.ne_nil
      rw [List.length_append] at size
      exact instruction part later whole (ih later.length (by omega) later rfl)

theorem segments_tail {tail : List UInt8} (incomplete : IsTail tail) :
    segments tail = ([], tail) := by
  cases tail with
  | nil => rw [segments]
  | cons first rest =>
    have short := isTail_iff.mp incomplete
    rw [segments]
    exact if_pos short

theorem segments_instruction {part : List UInt8} (whole : IsInstruction part)
    (later : List UInt8) :
    segments (part ++ later) = (part :: (segments later).1, (segments later).2) := by
  cases part with
  | nil => exact absurd rfl whole.ne_nil
  | cons first following =>
    have size : following.length = Instruction.length first - 1 := by
      have exactly := isInstruction_iff.mp whole
      simp only [needed, List.length_cons] at exactly
      omega
    have enough : ¬ (following ++ later).length + 1 < Instruction.length first := by
      rw [List.length_append]
      omega
    rw [List.cons_append, segments]
    simp only [if_neg enough, ← size, List.take_left, List.drop_left]

/-- Cutting instructions off the front gives a division. -/
theorem segmentation_segments (bytes : List UInt8) :
    Segmentation bytes (segments bytes).1 (segments bytes).2 := by
  induction bytes using instruction_induction with
  | tail tail incomplete =>
    rw [segments_tail incomplete]
    exact ⟨rfl, nofun, incomplete⟩
  | instruction part later whole ih =>
    rw [segments_instruction whole]
    refine ⟨?_, ?_, ih.incomplete⟩
    · rw [List.flatten_cons, List.append_assoc, ih.joined]
    · intro cut member
      rcases List.mem_cons.mp member with rfl | member
      · exact whole
      · exact ih.whole cut member

/-- There is no other division, since the first byte of each piece settles where
the piece ends. -/
theorem segmentation_unique {bytes tail : List UInt8} {parts : List (List UInt8)}
    (divided : Segmentation bytes parts tail) : segments bytes = (parts, tail) := by
  obtain ⟨rfl, whole, incomplete⟩ := divided
  induction parts with
  | nil => exact segments_tail incomplete
  | cons part parts ih =>
    have rest := ih fun cut member => whole cut (List.mem_cons_of_mem _ member)
    rw [List.flatten_cons, List.append_assoc, segments_instruction (whole part (by simp)), rest]

/-- With more bytes the instructions stay as they were cut, and the cutting goes
on at the tail. -/
theorem segments_append (bytes more : List UInt8) :
    segments (bytes ++ more) =
      ((segments bytes).1 ++ (segments ((segments bytes).2 ++ more)).1,
        (segments ((segments bytes).2 ++ more)).2) := by
  have before := segmentation_segments bytes
  have after := segmentation_segments ((segments bytes).2 ++ more)
  apply segmentation_unique
  refine ⟨?_, ?_, after.incomplete⟩
  · rw [List.flatten_append, List.append_assoc, after.joined, ← List.append_assoc, before.joined]
  · intro part member
    rcases List.mem_append.mp member with member | member
    · exact before.whole part member
    · exact after.whole part member

/-- Every instruction has one byte at least and three at most. -/
theorem flatten_bounds {parts : List (List UInt8)} (whole : ∀ part ∈ parts, IsInstruction part) :
    parts.length ≤ parts.flatten.length ∧ parts.flatten.length ≤ 3 * parts.length := by
  induction parts with
  | nil => simp
  | cons part parts ih =>
    have rest := ih fun cut member => whole cut (List.mem_cons_of_mem _ member)
    have size := isInstruction_iff.mp (whole part (by simp))
    have least := needed_pos part
    have most := needed_le part
    simp only [List.flatten_cons, List.length_append, List.length_cons]
    omega

/-- An instruction that is queued alone is all that decoding takes. -/
theorem decodeEvent_alone {part : List UInt8} (whole : IsInstruction part) :
    decodeEvent ⟨part⟩ = ⟨.ok (event part), .empty, (event part).records⟩ := by
  simpa [ByteQueue.empty] using decodeEvent_instruction whole []

/-- What instructions yield when each is decoded for itself. -/
theorem yields_map_event {parts : List (List UInt8)}
    (whole : ∀ part ∈ parts, IsInstruction part) : Yields parts (parts.map event) := by
  rw [Yields, List.map_map]
  refine List.map_congr_left fun part member => ?_
  rw [decodeEvent_alone (whole part member)]
  rfl

/-- How decoding ends at a tail: with the events so far if nothing is left, and
with the lack of bytes for the instruction that the tail begins otherwise. -/
def ending (events : List Event) : List UInt8 → Except Underflow (List Event)
  | [] => .ok events
  | first :: rest => .error ⟨Instruction.length first, rest.length + 1⟩

theorem decodeUntilEmpty_tail {tail : List UInt8} (incomplete : IsTail tail) :
    decodeUntilEmpty ⟨tail⟩ = ⟨ending [] tail, ⟨tail⟩, []⟩ := by
  have refused := decodeEvent_tail incomplete
  rw [decodeUntilEmpty_eq, refused]
  cases tail with
  | nil => rfl
  | cons first rest => rfl

theorem decodeUntilEmpty_instruction {part : List UInt8} (whole : IsInstruction part)
    (later : List UInt8) :
    decodeUntilEmpty ⟨part ++ later⟩ =
      ⟨(event part :: ·) <$> (decodeUntilEmpty ⟨later⟩).result, (decodeUntilEmpty ⟨later⟩).rest,
        (event part).records ++ (decodeUntilEmpty ⟨later⟩).log⟩ := by
  have occupied : ¬ ByteQueue.isEmpty ⟨part ++ later⟩ = true := by
    simp [ByteQueue.isEmpty, whole.ne_nil]
  rw [decodeUntilEmpty_eq, if_neg occupied, decodeEvent_instruction whole]
  rfl

/-- Decoding until the queue is empty gives the events of the division. -/
theorem decodeUntilEmpty_segments (bytes : List UInt8) :
    decodeUntilEmpty ⟨bytes⟩ =
      ⟨ending ((segments bytes).1.map event) (segments bytes).2, ⟨(segments bytes).2⟩,
        ((segments bytes).1.map event).flatMap Event.records⟩ := by
  induction bytes using instruction_induction with
  | tail tail incomplete =>
    rw [decodeUntilEmpty_tail incomplete, segments_tail incomplete]
    rfl
  | instruction part later whole ih =>
    rw [decodeUntilEmpty_instruction whole, segments_instruction whole, ih]
    simp only [List.map_cons, List.flatMap_cons]
    cases (segments later).2 <;> rfl

/-- Bytes that are decoded to the end are divided without a tail. -/
theorem segments_of_ok {bytes : List UInt8} {events : List Event}
    (accepted : (decodeUntilEmpty ⟨bytes⟩).result = .ok events) :
    (segments bytes).2 = [] ∧ events = (segments bytes).1.map event := by
  rw [decodeUntilEmpty_segments] at accepted
  cases tail : (segments bytes).2 with
  | nil =>
    rw [tail] at accepted
    exact ⟨rfl, (Except.ok.inj accepted).symm⟩
  | cons first rest =>
    rw [tail] at accepted
    cases accepted

/-- Bytes that are not decoded to the end are divided with one. -/
theorem segments_of_error {bytes : List UInt8} {underflow : Underflow}
    (refused : (decodeUntilEmpty ⟨bytes⟩).result = .error underflow) :
    (segments bytes).2 ≠ [] := by
  intro ended
  rw [decodeUntilEmpty_segments, ended] at refused
  cases refused

/-- **Decoding follows the one division.** A byte string has exactly one division
into instructions and a tail, and the tail is shorter than three bytes. Decoding
takes exactly the instructions, leaves the tail, and records the event that each
instruction has when it is decoded for itself. With no tail it gives these
events; otherwise it tells how many bytes the tail has and how many its
instruction needs. -/
theorem decodeUntilEmpty_segmentation (bytes : List UInt8) :
    ∃ parts tail events, Segmentation bytes parts tail ∧
      (∀ otherParts otherTail, Segmentation bytes otherParts otherTail →
        otherParts = parts ∧ otherTail = tail) ∧
      tail.length ≤ 2 ∧
      (parts.map fun part => decodeEvent ⟨part⟩) =
        (events.map fun event => ⟨.ok event, .empty, event.records⟩) ∧
      (decodeUntilEmpty ⟨bytes⟩).rest = ⟨tail⟩ ∧
      (decodeUntilEmpty ⟨bytes⟩).log = events.flatMap Event.records ∧
      (tail = [] → (decodeUntilEmpty ⟨bytes⟩).result = .ok events ∧
        events.length = parts.length ∧
        bytes.length ≤ 3 * events.length ∧ events.length ≤ bytes.length) ∧
      ∀ first rest, tail = first :: rest →
        (decodeUntilEmpty ⟨bytes⟩).result = .error ⟨Instruction.length first, tail.length⟩ := by
  have divided := segmentation_segments bytes
  have decoded := decodeUntilEmpty_segments bytes
  cases pieces : segments bytes with
  | mk parts tail =>
    simp only [pieces] at divided decoded
    refine ⟨parts, tail, parts.map event, divided, ?_, ?_, ?_, ?_, ?_, ?_, ?_⟩
    · intro otherParts otherTail other
      have same := (segmentation_unique other).symm.trans pieces
      exact Prod.mk.inj same
    · have short := isTail_iff.mp divided.incomplete
      have most := needed_le tail
      omega
    · rw [List.map_map]
      refine List.map_congr_left fun part member => ?_
      exact decodeEvent_alone (divided.whole part member)
    · rw [decoded]
    · rw [decoded]
    · rintro rfl
      have joined := divided.joined
      have bounds := flatten_bounds divided.whole
      rw [List.append_nil] at joined
      rw [joined] at bounds
      refine ⟨by rw [decoded, ending], List.length_map _, ?_, ?_⟩
      · rw [List.length_map]
        exact bounds.2
      · rw [List.length_map]
        exact bounds.1
    · rintro first rest rfl
      rw [decoded, ending, List.length_cons]

end Lr35902.Segments
