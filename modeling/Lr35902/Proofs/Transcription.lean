import Lr35902.Transcript
import Lr35902.Proofs.Counting
import Lr35902.Proofs.Encoding

/-! The log tells what was consumed. Every instruction that is taken off the
queue leaves its entry, in order and whether or not the call succeeds in the
end; what is refused leaves none. If it does succeed, the events that it gives
are those of the same instructions. An opcode without a meaning is announced by
its own bytes, because no other instruction has its event. -/
namespace Lr35902.Transcription
open Instruction Segments Counting Encoding

/-! ### Entries -/

variable {part : List UInt8}

/-- An event without a meaning shows all bytes of its instruction. -/
theorem bytes_of_unimplemented {introducer : Option UInt8} {opcode : UInt8}
    (whole : IsInstruction part) (meant : event part = .unimplemented introducer opcode) :
    part = introducer.toList ++ [opcode] := by
  have spelled := spells_event whole
  rw [meant] at spelled
  cases introducer with
  | none =>
    have encoded : [opcode] = longForm part := spelled.encoded
    unfold longForm at encoded
    split at encoded <;> cases encoded
    rfl
  | some introducer =>
    have encoded : [introducer, opcode] = longForm part := spelled.encoded
    unfold longForm at encoded
    split at encoded <;> cases encoded
    · cases spelled.decodable
    · rfl

/-- The announcement told from the bytes of an instruction is the one told from
its event. -/
theorem announcementOf_instruction (whole : IsInstruction part) :
    (if (event part).isUnimplemented then announcementOf part else []) =
      (event part).announcement := by
  cases meant : event part with
  | unimplemented introducer opcode =>
    rw [bytes_of_unimplemented whole meant]
    cases introducer <;> rfl
  | _ => rfl

/-- The entry of an instruction is what decoding it records. -/
theorem entryOf_instruction (whole : IsInstruction part) :
    entryOf part = (event part).records := by
  rw [entryOf, decodeEvent_alone whole]
  simp only [announcementOf_instruction whole]
  rfl

theorem announcement_of_meaning {event : Event} (meant : event.isUnimplemented = false) :
    event.announcement = [] := by
  cases event with
  | unimplemented introducer opcode => cases meant
  | _ => rfl

/-- The entry of an instruction has one record of its event. An announcement
comes before it only if the opcode has no meaning, and shows all bytes. -/
theorem entryOf_spec (whole : IsInstruction part) :
    ∃ event, decodeEvent ⟨part⟩ = ⟨.ok event, .empty, entryOf part⟩ ∧
      (event.isUnimplemented = false → entryOf part = [⟨.trace, "decoded " ++ describe event⟩]) ∧
      (∀ opcode, event = .unimplemented none opcode →
        part = [opcode] ∧
        entryOf part = [⟨.debug, "unimplemented opcode $" ++ Hex.byte opcode⟩,
          ⟨.trace, "decoded " ++ describe event⟩]) ∧
      ∀ introducer opcode, event = .unimplemented (some introducer) opcode →
        part = [introducer, opcode] ∧
        entryOf part = [⟨.debug, "unimplemented prefixed opcode $" ++ Hex.byte introducer ++ " $" ++
            Hex.byte opcode⟩,
          ⟨.trace, "decoded " ++ describe event⟩] := by
  refine ⟨event part, ?_, ?_, ?_, ?_⟩
  · rw [decodeEvent_alone whole, entryOf_instruction whole]
  · intro meant
    rw [entryOf_instruction whole, Event.records, announcement_of_meaning meant, List.nil_append]
  · intro opcode meant
    rw [entryOf_instruction whole, meant]
    exact ⟨bytes_of_unimplemented whole meant, rfl⟩
  · intro introducer opcode meant
    rw [entryOf_instruction whole, meant]
    exact ⟨bytes_of_unimplemented whole meant, rfl⟩

/-- A byte is shown in two digits, the high half first. -/
theorem byte_eq_digits : ∀ byte : UInt8, (Hex.byte byte).toList =
    [byte.toNat / 16, byte.toNat % 16].map fun half => (Nat.digitChar half).toUpper := by
  decide +kernel

/-! ### Calls -/

variable {parts : List (List UInt8)}

theorem transcript_eq (whole : ∀ part ∈ parts, IsInstruction part) :
    transcript parts = (parts.map event).flatMap Event.records := by
  rw [transcript, List.flatMap_map, List.flatMap_def, List.flatMap_def]
  have entries : parts.map entryOf = parts.map fun part => (event part).records :=
    List.map_congr_left fun part member => entryOf_instruction (whole part member)
  rw [entries]

theorem decodeEvent_transcribes (queue : ByteQueue) :
    ∃ taken, Transcribes queue taken (decodeEvent queue) ∧
      (∀ event, (decodeEvent queue).result = .ok event → Yields taken [event]) ∧
      ∀ underflow, (decodeEvent queue).result = .error underflow → taken = [] := by
  obtain ⟨bytes⟩ := queue
  rcases tail_or_instruction bytes with incomplete | ⟨part, later, whole, rfl⟩
  · rw [decodeEvent_tail incomplete]
    refine ⟨[], ⟨nofun, rfl, rfl, fun underflow refused => ?_⟩, nofun, fun _ _ => rfl⟩
    cases refused
    exact decodeEvent_tail incomplete
  · have alone : ∀ cut ∈ [part], IsInstruction cut := by simpa using whole
    rw [decodeEvent_instruction whole]
    refine ⟨[part], ⟨alone, by simp, ?_, nofun⟩, fun event decoded => ?_, nofun⟩
    · rw [transcript_eq alone]
      simp
    · cases decoded
      exact yields_map_event alone

theorem decodeCount_transcribes (count : Nat) (queue : ByteQueue) :
    ∃ taken, Transcribes queue taken (decodeCount count queue) ∧
      (∀ events, (decodeCount count queue).result = .ok events →
        Yields taken events ∧ taken.length = count) ∧
      ∀ underflow, (decodeCount count queue).result = .error underflow → taken.length < count := by
  obtain ⟨bytes⟩ := queue
  have divided := segmentation_segments bytes
  rcases Nat.lt_or_ge (segments bytes).1.length count with beyond | within
  · rw [decodeCount_beyond divided beyond]
    refine ⟨_, ⟨divided.whole, divided.joined.symm, (transcript_eq divided.whole).symm, ?_⟩,
      nofun, fun _ _ => beyond⟩
    intro underflow refused
    cases refused
    exact decodeEvent_tail divided.incomplete
  · have whole : ∀ part ∈ (segments bytes).1.take count, IsInstruction part :=
      fun part member => divided.whole part (List.mem_of_mem_take member)
    rw [decodeCount_within divided within]
    refine ⟨_, ⟨whole, divided.cut count, (transcript_eq whole).symm, nofun⟩, ?_, nofun⟩
    intro events decoded
    cases decoded
    exact ⟨yields_map_event whole, List.length_take_of_le within⟩

theorem decodeEvent_of_ending {events : List Event} {tail : List UInt8} {underflow : Underflow}
    (incomplete : IsTail tail) (refused : ending events tail = .error underflow) :
    decodeEvent ⟨tail⟩ = ⟨.error underflow, ⟨tail⟩, []⟩ := by
  cases tail with
  | nil => cases refused
  | cons first rest =>
    cases refused
    exact decodeEvent_tail incomplete

theorem decodeUntilEmpty_transcribes (queue : ByteQueue) :
    ∃ taken, Transcribes queue taken (decodeUntilEmpty queue) ∧
      ∀ events, (decodeUntilEmpty queue).result = .ok events → Yields taken events := by
  obtain ⟨bytes⟩ := queue
  have divided := segmentation_segments bytes
  refine ⟨(segments bytes).1, ?_, fun events decoded => ?_⟩
  · rw [decodeUntilEmpty_segments]
    exact ⟨divided.whole, divided.joined.symm, (transcript_eq divided.whole).symm,
      fun underflow refused => decodeEvent_of_ending divided.incomplete refused⟩
  · rw [(segments_of_ok decoded).2]
    exact yields_map_event divided.whole

/-- **The log is a faithful transcript of what was consumed.** Whether one
instruction is decoded, or a promised number for which there is room, or all
until the queue is empty, and whether the call succeeds or not: the records are
the entries of the instructions that were taken, in order. A call that succeeds
gives the events of just these instructions, and they are as many as were
promised; one that is refused has taken fewer, and what is refused in the end
leaves no record. The entry of an instruction is one record of its event, and
right before it, only if the opcode has no meaning, one announcement that shows
exactly the bytes of the instruction, each in two digits. -/
theorem log_transcribes (queue : ByteQueue) :
    (∃ taken, Transcribes queue taken (decodeEvent queue) ∧
      (∀ event, (decodeEvent queue).result = .ok event → Yields taken [event]) ∧
      ∀ underflow, (decodeEvent queue).result = .error underflow → taken = []) ∧
    (∀ count : UInt64, Reservable count.toNat → ∃ decoding taken,
      decodeEvents count queue = .begun decoding ∧ Transcribes queue taken decoding ∧
      (∀ events, decoding.result = .ok events →
        Yields taken events ∧ taken.length = count.toNat) ∧
      ∀ underflow, decoding.result = .error underflow → taken.length < count.toNat) ∧
    (∃ taken, Transcribes queue taken (decodeUntilEmpty queue) ∧
      ∀ events, (decodeUntilEmpty queue).result = .ok events → Yields taken events) ∧
    (∀ part, IsInstruction part → ∃ event,
      decodeEvent ⟨part⟩ = ⟨.ok event, .empty, entryOf part⟩ ∧
      (event.isUnimplemented = false → entryOf part = [⟨.trace, "decoded " ++ describe event⟩]) ∧
      (∀ opcode, event = .unimplemented none opcode →
        part = [opcode] ∧
        entryOf part = [⟨.debug, "unimplemented opcode $" ++ Hex.byte opcode⟩,
          ⟨.trace, "decoded " ++ describe event⟩]) ∧
      ∀ introducer opcode, event = .unimplemented (some introducer) opcode →
        part = [introducer, opcode] ∧
        entryOf part = [⟨.debug, "unimplemented prefixed opcode $" ++ Hex.byte introducer ++ " $" ++
            Hex.byte opcode⟩,
          ⟨.trace, "decoded " ++ describe event⟩]) ∧
    ∀ byte : UInt8, (Hex.byte byte).toList =
      [byte.toNat / 16, byte.toNat % 16].map fun half => (Nat.digitChar half).toUpper := by
  refine ⟨decodeEvent_transcribes queue, ?_, decodeUntilEmpty_transcribes queue, ?_, byte_eq_digits⟩
  · intro count room
    obtain ⟨taken, transcribes⟩ := decodeCount_transcribes count.toNat queue
    exact ⟨decodeCount count.toNat queue, taken, decodeEvents_reserved room queue, transcribes⟩
  · intro part whole
    exact entryOf_spec whole

/-- A call that fails has lost its events, but not their records. -/
example : decodeEvents 3 ⟨[0xD3, 0xDD, 0x01, 0x06]⟩ =
    .begun ⟨.error ⟨2, 1⟩, ⟨[0x06]⟩,
      [⟨.debug, "unimplemented opcode $D3"⟩,
        ⟨.trace, "decoded Unimplemented \x7b prefix: None, opcode: 211 \x7d"⟩,
        ⟨.debug, "unimplemented prefixed opcode $DD $01"⟩,
        ⟨.trace, "decoded Unimplemented \x7b prefix: Some(221), opcode: 1 \x7d"⟩]⟩ := rfl

end Lr35902.Transcription
