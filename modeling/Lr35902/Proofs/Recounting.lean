import Mathlib.Data.List.Basic
import Lr35902.Proofs.Legibility
import Lr35902.Proofs.RoundTrip
import Lr35902.Proofs.Transcription

/-! The log tells the events again. Every layout of an event is legible, so the
text of an event is the text of no other, and the event is read back from it by
way of its layout and its structured form. The records of a decoding hold the
texts of its events in order, whether it succeeds or not. -/
namespace Lr35902

/-- A type whose values have legible layouts. -/
class LegibleLayouts (α : Type) [Described α] : Prop where
  legible (value : α) : (datum value).Legible

open LegibleLayouts (legible)

instance : LegibleLayouts UInt8 := ⟨fun value => .number value.toNat⟩

instance : LegibleLayouts UInt16 := ⟨fun value => .number value.toNat⟩

instance : LegibleLayouts Int8 := ⟨fun value => .number value.toInt⟩

theorem LegibleLayouts.ofEnumerated {α : Type} [Enumerated α] [LawfulEnumerated α]
    (named : (Enumerated.all : List α).all fun value => Datum.isName (Enumerated.name value)) :
    LegibleLayouts α where
  legible value := .tag (List.all_eq_true.mp named value (LawfulEnumerated.mem_all value))

instance : LegibleLayouts Register := .ofEnumerated rfl

instance : LegibleLayouts Register16 := .ofEnumerated rfl

instance : LegibleLayouts Indirect := .ofEnumerated rfl

instance : LegibleLayouts Condition := .ofEnumerated rfl

instance : LegibleLayouts ShiftOp := .ofEnumerated rfl

instance : LegibleLayouts BitOp := .ofEnumerated rfl

instance : LegibleLayouts FlagState := .ofEnumerated rfl

section
variable {α : Type} [Described α] [LegibleLayouts α]

instance : LegibleLayouts (Option α) where
  legible
    | none => .missing
    | some value => .present (legible value)

instance : LegibleLayouts (List α) where
  legible values := by
    refine .list fun item member => ?_
    obtain ⟨value, -, rfl⟩ := List.mem_map.mp member
    exact legible value

end

instance : LegibleLayouts FlagDelta where
  legible delta := .wrapped (List.mem_singleton.mpr rfl) (legible delta.states)

instance : LegibleLayouts Carried where
  legible value := by
    change value.layout.Legible
    cases value <;> exact .tuple rfl (List.forall_mem_singleton.mpr (legible _))

instance : LegibleLayouts Operand where
  legible value := by
    change value.layout.Legible
    cases value with
    | partialAddress high low =>
      exact .record rfl (by simp [Datum.isName, Datum.reservedNames, Datum.typeNames])
        (by simp [legible])
    | _ => exact .tuple rfl (by simp [legible])

instance : LegibleLayouts Operand16 where
  legible value := by
    change value.layout.Legible
    cases value <;> exact .tuple rfl (by simp [legible])

namespace Event

theorem legible_layout (event : Event) : event.layout.Legible := by
  induction event with
  | compound first second ihFirst ihSecond => exact .tuple rfl (by simp [ihFirst, ihSecond])
  | nop | complement | decimalAdjust | retInterrupt | halt | stop | disableInterrupts
  | enableInterrupts => exact .tag rfl
  | load | load16 | shift | bit | unimplemented =>
    exact .record rfl (by simp [Datum.isName, Datum.reservedNames, Datum.typeNames])
      (by simp [legible])
  | _ => exact .tuple rfl (by simp [legible])

/-- The texts that are read as an event are those of the event. -/
theorem ofText_eq_some_iff {text : String} {event : Event} :
    ofText? text = some event ↔ describe event = text := by
  rw [ofText?, Option.filter_eq_some_iff, beq_iff_eq]
  constructor
  · exact And.right
  · rintro rfl
    have read : Datum.ofText? (describe event) = some event.layout :=
      Datum.ofText_text event.legible_layout
    rw [read, Option.bind_some]
    exact ⟨LawfulJson.ofJson_json event, rfl⟩

theorem ofRecord_decoded (event : Event) :
    ofRecord? ⟨.trace, "decoded " ++ describe event⟩ = some event := by
  have cut : "decoded ".toList.isPrefixOf? ("decoded " ++ describe event).toList =
      some (describe event).toList := by
    rw [List.isPrefixOf?_eq_some_iff_append_eq, String.toList_append]
  rw [ofRecord?, cut, Option.bind_some, String.ofList_toList, ofText_eq_some_iff]

end Event

namespace Recounting
open Instruction Segments Counting Transcription

/-- An announcement is no trace. -/
theorem recount_records (event : Event) : recount event.records = [event] := by
  have silent : event.announcement.filter (·.level == .trace) = [] := by
    unfold Event.announcement
    split <;> rfl
  rw [recount, Event.records, List.filter_append, silent, List.nil_append]
  simp [Event.ofRecord_decoded]

theorem recount_append (first second : List LogRecord) :
    recount (first ++ second) = recount first ++ recount second := by
  simp only [recount, List.filter_append, List.filterMap_append]

/-- The records of events tell these events. -/
theorem recount_flatMap (events : List Event) :
    recount (events.flatMap Event.records) = events := by
  induction events with
  | nil => rfl
  | cons event later ih => rw [List.flatMap_cons, recount_append, recount_records, ih]; rfl

/-- The log of a decoding tells, in its trace records alone, the event of each
instruction that was taken off the queue. If the decoding succeeded, these are the
events that it gave. -/
structure Recounts {α : Type} (queue : ByteQueue) (listed : α → List Event)
    (decoding : Decoding α) : Prop where
  taken : ∃ parts, Transcribes queue parts decoding ∧
    (parts.map fun part => (decodeEvent ⟨part⟩).result) = (recount decoding.log).map .ok
  given : ∀ value, decoding.result = .ok value → listed value = recount decoding.log

/-- A log that is a transcript tells the events of the transcribed instructions. -/
theorem recount_transcript {parts : List (List UInt8)}
    (whole : ∀ part ∈ parts, IsInstruction part) :
    recount (transcript parts) = parts.map event := by
  rw [transcript_eq whole, recount_flatMap]

theorem Recounts.of_transcribes {α : Type} {queue : ByteQueue} {listed : α → List Event}
    {decoding : Decoding α} {parts : List (List UInt8)}
    (transcribes : Transcribes queue parts decoding)
    (given : ∀ value, decoding.result = .ok value → Yields parts (listed value)) :
    Recounts queue listed decoding := by
  have told : recount decoding.log = parts.map event := by
    rw [transcribes.log, recount_transcript transcribes.whole]
  have yields : Yields parts (parts.map event) := yields_map_event transcribes.whole
  refine ⟨⟨parts, transcribes, ?_⟩, fun value succeeded => ?_⟩
  · -- A refused call gives no events, so they are those of the instructions taken.
    rw [told]
    exact yields
  · rw [told]
    exact (given value succeeded).unique yields

/-- **The text of an event tells the event**, and so the log tells the events of a
call: for one instruction, for a promised number and until the queue is empty, the
trace records hold the events of the instructions taken, also if the call is
refused in the end. -/
theorem text_tells_event :
    (∀ left right : Event, describe left = describe right ↔ left = right) ∧
    ∀ queue : ByteQueue, Recounts queue (fun event => [event]) (decodeEvent queue) ∧
      (∀ count decoding, decodeEvents count queue = .begun decoding → Recounts queue id decoding) ∧
      Recounts queue id (decodeUntilEmpty queue) := by
  refine ⟨?_, fun queue => ⟨?_, ?_, ?_⟩⟩
  · intro left right
    constructor
    · intro same
      have leftRead : Event.ofText? (describe right) = some left :=
        Event.ofText_eq_some_iff.mpr same
      have rightRead : Event.ofText? (describe right) = some right :=
        Event.ofText_eq_some_iff.mpr rfl
      exact Option.some.inj (leftRead.symm.trans rightRead)
    · rintro rfl
      rfl
  · obtain ⟨taken, transcribes, given, -⟩ := decodeEvent_transcribes queue
    exact .of_transcribes transcribes given
  · intro count decoding begun
    unfold decodeEvents at begun
    split at begun
    · cases begun
    · obtain ⟨taken, transcribes, given, -⟩ := decodeCount_transcribes count.toNat queue
      rw [← Attempt.begun_inj.mp begun]
      exact .of_transcribes transcribes fun events succeeded => (given events succeeded).1
  · obtain ⟨taken, transcribes, given⟩ := decodeUntilEmpty_transcribes queue
    exact .of_transcribes transcribes given

/-- A call that was refused has lost its events, but its traces tell them. -/
example : recount (decodeUntilEmpty ⟨[0x76, 0x06]⟩).log = [.halt] := by
  cbv

end Recounting

end Lr35902
