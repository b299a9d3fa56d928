import Mathlib.Data.List.Forall2
import Lr35902.Instruction.Synonym
import Lr35902.Proofs.Encoding
import Lr35902.Proofs.Segments

/-! How much decoding forgets. Encoding an event gives back the long form of the
instruction it came from, so two instructions that have one event have one long
form; and instructions with one long form are synonyms. -/
namespace Lr35902.Synonyms
open Instruction Encoding Segments

/-- Bytes that have the same long form are equal, or are two short forms of one
long form, or one of them is the long form of the other. -/
theorem synonym_of_longForm {left right : List UInt8} (same : longForm left = longForm right) :
    Synonym left right := by
  revert same
  fun_cases longForm left with
  | case1 padding =>
    fun_cases longForm right with
    | case1 other => exact fun _ => .stop padding other
    | case2 low => exact nofun
    | case3 low => exact nofun
    | case4 => exact fun same => same ▸ .stop padding 0x00
  | case2 low =>
    fun_cases longForm right with
    | case1 padding => exact nofun
    | case2 other =>
      intro same
      cases same
      exact .same _
    | case3 other => exact nofun
    | case4 => exact fun same => same ▸ .storeHigh low
  | case3 low =>
    fun_cases longForm right with
    | case1 padding => exact nofun
    | case2 other => exact nofun
    | case3 other =>
      intro same
      cases same
      exact .same _
    | case4 => exact fun same => same ▸ .fetchHigh low
  | case4 =>
    fun_cases longForm right with
    | case1 padding => exact fun same => same ▸ .stop 0x00 padding
    | case2 low => exact fun same => same ▸ .symm (.storeHigh low)
    | case3 low => exact fun same => same ▸ .symm (.fetchHigh low)
    | case4 => exact fun same => same ▸ .same _

theorem synonym_iff_longForm {left right : List UInt8} :
    Synonym left right ↔ longForm left = longForm right := by
  constructor
  · intro synonym
    induction synonym with
    | same bytes => rfl
    | stop padding other => rfl
    | storeHigh low => rfl
    | fetchHigh low => rfl
    | symm synonym ih => exact ih.symm
  · exact synonym_of_longForm

/-- The long form of an instruction means what the instruction means. -/
theorem event_longForm {bytes : List UInt8} (whole : IsInstruction bytes) :
    Instruction.event (longForm bytes) = Instruction.event bytes := by
  have spelled := spells_event whole
  rw [← spelled.encoded]
  exact (recovered_of_decodable spelled.decodable).meaning

/-- Two instructions mean the same if and only if they are synonyms. -/
theorem event_eq_iff {left right : List UInt8} (wholeLeft : IsInstruction left)
    (wholeRight : IsInstruction right) :
    Instruction.event left = Instruction.event right ↔ Synonym left right := by
  rw [synonym_iff_longForm]
  constructor
  · intro same
    rw [← (spells_event wholeLeft).encoded, ← (spells_event wholeRight).encoded, same]
  · intro same
    rw [← event_longForm wholeLeft, ← event_longForm wholeRight, same]

/-- Two programs mean the same if and only if they are synonyms one instruction
after the other. -/
theorem map_event_eq_iff {leftParts rightParts : List (List UInt8)}
    (wholeLeft : ∀ part ∈ leftParts, IsInstruction part)
    (wholeRight : ∀ part ∈ rightParts, IsInstruction part) :
    leftParts.map Instruction.event = rightParts.map Instruction.event ↔
      List.Forall₂ Synonym leftParts rightParts := by
  induction leftParts generalizing rightParts with
  | nil => cases rightParts <;> simp
  | cons left leftParts ih =>
    cases rightParts with
    | nil => simp
    | cons right rightParts =>
      obtain ⟨wholeLeft, wholeLater⟩ := List.forall_mem_cons.mp wholeLeft
      obtain ⟨wholeRight, wholeOther⟩ := List.forall_mem_cons.mp wholeRight
      rw [List.map_cons, List.map_cons, List.cons.injEq, List.forall₂_cons,
        event_eq_iff wholeLeft wholeRight, ih wholeLater wholeOther]

/-- Bytes that are decoded to the end are divided without a tail, and their
events are those of the instructions. -/
theorem segmentation_of_ok {bytes : List UInt8} {events : List Event}
    (accepted : (decodeUntilEmpty ⟨bytes⟩).result = .ok events) :
    ∃ parts, Segmentation bytes parts [] ∧ events = parts.map Instruction.event := by
  have divided := segmentation_segments bytes
  obtain ⟨ended, rfl⟩ := segments_of_ok accepted
  rw [ended] at divided
  exact ⟨_, divided, rfl⟩

/-- **Decoding forgets nothing but the choice between synonyms.** Two single
instructions are decoded to one event if and only if they are equal, are both
`STOP`, or are the short and the long way to load from or to one cell of the
topmost page. And two byte strings that are decoded to the end have the same
events if and only if they are divided into equally many instructions that are
synonyms one by one. -/
theorem decode_eq_iff_synonym :
    (∀ left right, IsInstruction left → IsInstruction right →
      ((∃ event, (decodeEvent ⟨left⟩).result = .ok event ∧
        (decodeEvent ⟨right⟩).result = .ok event) ↔ Synonym left right)) ∧
    ∀ left right leftEvents rightEvents,
      (decodeUntilEmpty ⟨left⟩).result = .ok leftEvents →
      (decodeUntilEmpty ⟨right⟩).result = .ok rightEvents →
        (leftEvents = rightEvents ↔ ∃ leftParts rightParts, Segmentation left leftParts [] ∧
          Segmentation right rightParts [] ∧ List.Forall₂ Synonym leftParts rightParts) := by
  constructor
  · intro left right wholeLeft wholeRight
    rw [decodeEvent_alone wholeLeft, decodeEvent_alone wholeRight,
      ← event_eq_iff wholeLeft wholeRight]
    constructor
    · rintro ⟨event, decodedLeft, decodedRight⟩
      exact Except.ok.inj (decodedLeft.trans decodedRight.symm)
    · intro same
      exact ⟨_, rfl, congrArg Except.ok same.symm⟩
  · intro left right leftEvents rightEvents acceptedLeft acceptedRight
    obtain ⟨leftParts, dividedLeft, rfl⟩ := segmentation_of_ok acceptedLeft
    obtain ⟨rightParts, dividedRight, rfl⟩ := segmentation_of_ok acceptedRight
    rw [map_event_eq_iff dividedLeft.whole dividedRight.whole]
    constructor
    · intro paired
      exact ⟨leftParts, rightParts, dividedLeft, dividedRight, paired⟩
    · rintro ⟨otherLeft, otherRight, againLeft, againRight, paired⟩
      cases (segmentation_unique dividedLeft).symm.trans (segmentation_unique againLeft)
      cases (segmentation_unique dividedRight).symm.trans (segmentation_unique againRight)
      exact paired

end Lr35902.Synonyms
