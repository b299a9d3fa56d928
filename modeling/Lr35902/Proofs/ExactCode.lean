import Lr35902.Event.Binary
import Lr35902.Proofs.Reading

/-! The binary form of events is an exact, self-delimiting code. Every event and
every list of events has one form, reading takes that form off the front of any
byte string and leaves the rest, and a byte string that does not begin with a
form is refused. The fields of an event are read in the order in which they are
written; a compound is read with one level less than the whole, and as an event
has fewer levels than bytes, the levels never run out. -/
namespace Lr35902

open Reader Binary

instance : LawfulBinary ShiftOp := .ofEnumerated (by decide)

instance : LawfulBinary BitOp := .ofEnumerated (by decide)

instance : LawfulBinary FlagDelta where
  read_append delta rest := by
    change (times Binary.read delta.states.length >>= _)
      (delta.states.flatMap Binary.write ++ rest) = _
    rw [bind_of_read (times_append delta.states rest), FlagDelta.ofStates_states]
    rfl
  append_of_read taken := by
    obtain ⟨states, later, before, last⟩ := bind_eq_some.mp taken
    obtain ⟨-, rfl⟩ := append_of_times before
    cases listed : FlagDelta.ofStates? states with
    | none =>
      rw [listed] at last
      cases last
    | some delta =>
      rw [listed] at last
      cases last
      rw [← FlagDelta.states_of_ofStates listed]
      rfl

theorem Carried.retraces_read : Retraces Carried.write [] Carried.read := by
  refine .index fun index => ?_
  split
  · exact .field fun register => .pure rfl
  · exact .field fun indirect => .pure rfl
  · exact .field fun immediate => .pure rfl
  · exact .refuse

instance : LawfulBinary Carried where
  read_append value rest := by
    change Carried.read (value.write ++ rest) = _
    cases value <;>
      simp (disch := decide) only [Carried.read, Carried.write, List.append_assoc,
        readIndex_bind_append, read_bind_append, pure_apply]
  append_of_read := Carried.retraces_read.of_read

theorem Operand.retraces_read : Retraces Operand.write [] Operand.read := by
  refine .index fun index => ?_
  split
  case h_5 => exact .field fun high => .field fun low => .pure rfl
  case h_7 => exact .refuse
  all_goals exact .field fun value => .pure rfl

instance : LawfulBinary Operand where
  read_append value rest := by
    change Operand.read (value.write ++ rest) = _
    cases value <;>
      simp (disch := decide) only [Operand.read, Operand.write, List.append_assoc,
        readIndex_bind_append, read_bind_append, pure_apply]
  append_of_read := Operand.retraces_read.of_read

theorem Operand16.retraces_read : Retraces Operand16.write [] Operand16.read := by
  refine .index fun index => ?_
  split
  case h_4 => exact .field fun base => .field fun offset => .pure rfl
  case h_5 => exact .refuse
  all_goals exact .field fun value => .pure rfl

instance : LawfulBinary Operand16 where
  read_append value rest := by
    change Operand16.read (value.write ++ rest) = _
    cases value <;>
      simp (disch := decide) only [Operand16.read, Operand16.write, List.append_assoc,
        readIndex_bind_append, read_bind_append, pure_apply]
  append_of_read := Operand16.retraces_read.of_read

namespace Event

theorem constructorIndex_lt (event : Event) : event.constructorIndex < LittleEndian.limit 4 := by
  cases event <;> (simp only [constructorIndex]; decide)

/-- Fields are read back from their written form, if the parts of a compound
are. -/
theorem readFields_append {nested : Reader Event} (event : Event)
    (parts : ∀ first second, event = .compound first second → ∀ rest,
      nested (first.write ++ rest) = some (first, rest) ∧
        nested (second.write ++ rest) = some (second, rest)) (rest : List UInt8) :
    readFields nested event.constructorIndex (event.writeFields ++ rest) = some (event, rest) := by
  cases event with
  | compound first second =>
    have firstPart := (parts first second rfl (second.write ++ rest)).1
    have secondPart := (parts first second rfl rest).2
    change (nested >>= _) ((first.write ++ second.write) ++ rest) = _
    rw [List.append_assoc, bind_of_read firstPart, bind_of_read secondPart, pure_apply]
  | _ =>
    simp only [constructorIndex, readFields, writeFields, List.append_assoc, List.nil_append,
      read_bind_append, pure_apply]

/-- What is read as the fields of a constructor is an event of that constructor,
if the parts of a compound are events. -/
theorem retraces_readFields {nested : Reader Event} (parts : Retraces write [] nested)
    (index : Nat) : Retraces write (writeIndex index) (readFields nested index) := by
  unfold readFields
  split
  case h_24 =>
    refine .bind parts fun first => .bind parts fun second => .pure ?_
    rw [List.append_assoc]
    rfl
  case h_36 => exact .refuse
  all_goals
    repeat refine .field fun value => ?_
    exact .pure rfl

theorem retraces_readNested (depth : Nat) : Retraces write [] (readNested depth) := by
  induction depth with
  | zero => exact .refuse
  | succ depth ih => exact .index (retraces_readFields ih)

/-- As many levels as bytes are enough, since every level has an index of four
bytes to itself. -/
theorem readNested_append {event : Event} {depth : Nat} (enough : event.write.length ≤ depth)
    (rest : List UInt8) : readNested depth (event.write ++ rest) = some (event, rest) := by
  induction depth generalizing event rest with
  | zero =>
    simp only [write, writeIndex, List.length_append, LittleEndian.length_toBytes] at enough
    omega
  | succ depth ih =>
    rw [readNested, write, List.append_assoc, readIndex_bind_append event.constructorIndex_lt]
    refine readFields_append event ?_ rest
    rintro first second rfl later
    simp only [write, writeFields, writeIndex, List.length_append,
      LittleEndian.length_toBytes] at enough
    constructor
    · refine ih ?_ later
      simp only [write, writeIndex, List.length_append, LittleEndian.length_toBytes]
      omega
    · refine ih ?_ later
      simp only [write, writeIndex, List.length_append, LittleEndian.length_toBytes]
      omega

end Event

instance : LawfulBinary Event where
  read_append event rest := by
    refine Event.readNested_append ?_ rest
    rw [List.length_append]
    change event.write.length ≤ event.write.length + rest.length + 1
    omega
  append_of_read taken := (Event.retraces_readNested _).of_read taken

/-- The written forms of the values that can be written are an exact code: each
is read back and leaves what follows it, nothing else is read, and none of them
begins another. -/
structure ExactCode (α : Type) [Binary α] (Writable : α → Prop) : Prop where
  reads (value : α) (rest : List UInt8) :
    Writable value → Binary.read (Binary.write value ++ rest) = some (value, rest)
  canonical (bytes rest : List UInt8) (value : α) :
    Binary.read bytes = some (value, rest) → Writable value ∧ bytes = Binary.write value ++ rest
  refuses (bytes : List UInt8) :
    (∀ value : α, Writable value → ¬ Binary.write value <+: bytes) →
      (Binary.read bytes : Option (α × List UInt8)) = none
  injective (left right : α) :
    Writable left → Writable right → Binary.write left = Binary.write right → left = right
  prefix_free (left right : α) :
    Writable left → Writable right → Binary.write left <+: Binary.write right → left = right

namespace ExactCode

variable {α : Type} [Binary α] {Writable : α → Prop}

/-- Everything follows from reading back and from reading nothing else. -/
theorem of_reads
    (reads : ∀ (value : α) rest, Writable value →
      Binary.read (Binary.write value ++ rest) = some (value, rest))
    (canonical : ∀ bytes rest (value : α), Binary.read bytes = some (value, rest) →
      Writable value ∧ bytes = Binary.write value ++ rest) : ExactCode α Writable := by
  have prefixed (left right : α) (first : Writable left) (second : Writable right)
      (begins : Binary.write left <+: Binary.write right) : left = right := by
    obtain ⟨rest, joined⟩ := begins
    have whole := reads right [] second
    rw [List.append_nil, ← joined, reads left rest first] at whole
    cases whole
    rfl
  refine ⟨reads, canonical, ?_, ?_, prefixed⟩
  · intro bytes absent
    cases taken : (Binary.read bytes : Option (α × List UInt8)) with
    | none => rfl
    | some result =>
      obtain ⟨writable, joined⟩ := canonical bytes result.2 result.1 taken
      exact absurd ⟨result.2, joined.symm⟩ (absent result.1 writable)
  · intro left right first second same
    exact prefixed left right first second (same ▸ List.prefix_rfl)

/-- **The binary form of events is an exact, self-delimiting code**, for single
events of any depth, and for lists whose length fits into the eight bytes of
their count. -/
theorem events_exactly_coded :
    ExactCode Event (fun _ => True) ∧
      ExactCode (List Event) (fun events => events.length < UInt64.size) := by
  constructor
  · refine of_reads ?_ ?_
    · intro event rest _
      exact LawfulBinary.read_append event rest
    · intro bytes rest event taken
      exact ⟨trivial, LawfulBinary.append_of_read taken⟩
  · have width : LittleEndian.limit 8 = UInt64.size := rfl
    refine of_reads ?_ ?_
    · intro events rest fits
      exact read_list_append (width ▸ fits) rest
    · intro bytes rest events taken
      exact width ▸ append_of_read_list taken

end ExactCode

end Lr35902
