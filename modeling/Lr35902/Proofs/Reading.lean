import Lr35902.Binary
import Lr35902.Flag
import Lr35902.Register

/-! Readers of binary forms, and the law that ties a reader to its writer. A
written value is read whole off the front of a byte string, whatever follows it,
and nothing but written values is accepted. The law is one class for all types;
here it is proved for numbers, finite types, optional values and sequences, and
a rule is given for readers that take one field after another. -/
namespace Lr35902

namespace Reader

variable {α β : Type}

@[simp] theorem pure_apply (value : α) (bytes : List UInt8) :
    (pure value : Reader α) bytes = some (value, bytes) := rfl

/-- A sequence of readers goes on with what the first of them leaves. -/
theorem bind_of_read {read : Reader α} {bytes later : List UInt8} {first : α}
    (taken : read bytes = some (first, later)) (next : α → Reader β) :
    (read >>= next) bytes = next first later := by
  change (read bytes).bind (fun result => next result.1 result.2) = next first later
  rw [taken]
  rfl

/-- What a sequence of readers gives was given by each of them in turn. -/
theorem bind_eq_some {read : Reader α} {next : α → Reader β} {bytes rest : List UInt8}
    {value : β} :
    (read >>= next) bytes = some (value, rest) ↔
      ∃ first later, read bytes = some (first, later) ∧ next first later = some (value, rest) := by
  change (read bytes).bind (fun result => next result.1 result.2) = some (value, rest) ↔ _
  rw [Option.bind_eq_some_iff, Prod.exists]

theorem byte_eq_some {bytes rest : List UInt8} {value : UInt8} :
    byte bytes = some (value, rest) ↔ bytes = value :: rest := by
  cases bytes with
  | nil => simp [byte]
  | cons first later => simp [byte]

theorem bytes_append {count : Nat} {digits : List UInt8} (exactly : digits.length = count)
    (rest : List UInt8) : bytes count (digits ++ rest) = some (digits, rest) := by
  induction digits generalizing count with
  | nil =>
    subst exactly
    rfl
  | cons first later ih =>
    subst exactly
    have taken : byte (first :: (later ++ rest)) = some (first, later ++ rest) := rfl
    rw [List.length_cons, bytes, List.cons_append, bind_of_read taken, bind_of_read (ih rfl),
      pure_apply]

theorem append_of_bytes {count : Nat} {whole digits rest : List UInt8}
    (taken : bytes count whole = some (digits, rest)) :
    digits.length = count ∧ whole = digits ++ rest := by
  induction count generalizing whole digits rest with
  | zero =>
    cases taken
    exact ⟨rfl, rfl⟩
  | succ count ih =>
    obtain ⟨first, middle, head, others⟩ := bind_eq_some.mp taken
    obtain ⟨later, ending, tail, last⟩ := bind_eq_some.mp others
    obtain ⟨size, rfl⟩ := ih tail
    cases last
    exact ⟨by rw [List.length_cons, size], byte_eq_some.mp head⟩

/-- A number that fits into its bytes is read back from them. -/
theorem number_append {width value : Nat} (fits : value < LittleEndian.limit width)
    (rest : List UInt8) :
    number width (LittleEndian.toBytes width value ++ rest) = some (value, rest) := by
  rw [number, bind_of_read (bytes_append (LittleEndian.length_toBytes width value) rest),
    pure_apply, LittleEndian.ofBytes_toBytes fits]

theorem append_of_number {width value : Nat} {whole rest : List UInt8}
    (taken : number width whole = some (value, rest)) :
    value < LittleEndian.limit width ∧ whole = LittleEndian.toBytes width value ++ rest := by
  obtain ⟨digits, later, before, last⟩ := bind_eq_some.mp taken
  obtain ⟨rfl, rfl⟩ := append_of_bytes before
  cases last
  exact ⟨LittleEndian.ofBytes_lt digits, by rw [LittleEndian.toBytes_ofBytes]⟩

end Reader

open Reader

/-- Reading undoes writing and accepts nothing else: a value is read off the
front of a byte string exactly when its written form stands there. -/
class LawfulBinary (α : Type) [Binary α] : Prop where
  read_append (value : α) (rest : List UInt8) :
    Binary.read (Binary.write value ++ rest) = some (value, rest)
  append_of_read {bytes rest : List UInt8} {value : α} :
    Binary.read bytes = some (value, rest) → bytes = Binary.write value ++ rest

namespace Binary

variable {α β : Type}

@[simp] theorem read_bind_append [Binary α] [LawfulBinary α] (value : α) (rest : List UInt8)
    (next : α → Reader β) : (Binary.read >>= next) (Binary.write value ++ rest) = next value rest :=
  bind_of_read (LawfulBinary.read_append value rest) next

theorem readIndex_bind_append {index : Nat} (fits : index < LittleEndian.limit 4)
    (rest : List UInt8) (next : Nat → Reader β) :
    (readIndex >>= next) (writeIndex index ++ rest) = next index rest :=
  bind_of_read (number_append fits rest) next

end Binary

open Binary

/-- Whatever a reader gives, its written form is what was used before together
with what the reader uses. -/
structure Reader.Retraces {α : Type} (form : α → List UInt8) (used : List UInt8)
    (read : Reader α) : Prop where
  of_read {bytes rest : List UInt8} {value : α} :
    read bytes = some (value, rest) → used ++ bytes = form value ++ rest

namespace Reader.Retraces

variable {α β : Type} {form : α → List UInt8} {used : List UInt8}

theorem refuse : Retraces form used refuse where
  of_read taken := by cases taken

/-- A reader is finished when the form of its value has been used up. -/
theorem pure {value : α} (written : form value = used) : Retraces form used (pure value) where
  of_read taken := by
    cases taken
    rw [written]

theorem bind {read : Reader β} {part : β → List UInt8} {next : β → Reader α}
    (first : Retraces part [] read)
    (later : ∀ value, Retraces form (used ++ part value) (next value)) :
    Retraces form used (read >>= next) where
  of_read taken := by
    obtain ⟨inner, middle, before, after⟩ := bind_eq_some.mp taken
    rw [← (later inner).of_read after, List.append_assoc, ← first.of_read before, List.nil_append]

/-- A field comes after the bytes of the fields before it. -/
theorem field [Binary β] [LawfulBinary β] {next : β → Reader α}
    (later : ∀ value, Retraces form (used ++ Binary.write value) (next value)) :
    Retraces form used (Binary.read >>= next) :=
  .bind ⟨LawfulBinary.append_of_read⟩ later

theorem index {next : Nat → Reader α}
    (later : ∀ index, Retraces form (used ++ writeIndex index) (next index)) :
    Retraces form used (readIndex >>= next) :=
  .bind ⟨fun taken => (append_of_number taken).2⟩ later

end Reader.Retraces

instance : LawfulBinary UInt8 where
  read_append _ _ := rfl
  append_of_read := byte_eq_some.mp

instance : LawfulBinary Int8 where
  read_append _ _ := rfl
  append_of_read taken := by
    obtain ⟨byte, later, before, last⟩ := bind_eq_some.mp taken
    cases last
    exact byte_eq_some.mp before

instance : LawfulBinary UInt16 where
  read_append value rest := by
    have taken := bytes_append (LittleEndian.length_toBytes 2 value.toNat) rest
    change (Reader.bytes 2 >>= _) (LittleEndian.toBytes 2 value.toNat ++ rest) = _
    rw [bind_of_read taken, pure_apply]
    exact congrArg (fun word => some (word, rest)) (LittleEndian.toWord_wordBytes value)
  append_of_read {bytes rest value} taken := by
    obtain ⟨digits, later, before, last⟩ := bind_eq_some.mp taken
    obtain ⟨size, rfl⟩ := append_of_bytes before
    cases last
    match digits, size with
    | [low, high], _ => exact congrArg (· ++ rest) (LittleEndian.wordBytes_toWord low high).symm

/-- The values of a finite type are told apart by their places, if the places
fit into four bytes. -/
theorem LawfulBinary.ofEnumerated {α : Type} [Enumerated α] [LawfulEnumerated α] [BEq α]
    [LawfulBEq α] (fits : (Enumerated.all : List α).length ≤ LittleEndian.limit 4) :
    LawfulBinary α where
  read_append value rest := by
    have inside := Nat.lt_of_lt_of_le (Enumerated.index_lt value) fits
    change (readIndex >>= fun place => found (Enumerated.ofIndex? place)) (writeIndex _ ++ rest) = _
    rw [readIndex_bind_append inside, Enumerated.ofIndex_index]
    rfl
  append_of_read taken := by
    have whole : Retraces Binary.write [] (Binary.read : Reader α) := by
      refine .index fun place => ?_
      cases listed : (Enumerated.ofIndex? place : Option α) with
      | none => exact .refuse
      | some value =>
        refine .pure ?_
        rw [← Enumerated.index_of_ofIndex listed]
        rfl
    exact whole.of_read taken

instance : LawfulBinary Register := .ofEnumerated (by decide)

instance : LawfulBinary Register16 := .ofEnumerated (by decide)

instance : LawfulBinary Indirect := .ofEnumerated (by decide)

instance : LawfulBinary Condition := .ofEnumerated (by decide)

instance : LawfulBinary FlagState := .ofEnumerated (by decide)

section
variable {α : Type} [Binary α] [LawfulBinary α]

instance : LawfulBinary (Option α) where
  read_append value rest := by
    cases value with
    | none => rfl
    | some value =>
      change (Binary.read >>= fun value : α => pure (some value)) (Binary.write value ++ rest) = _
      rw [read_bind_append, pure_apply]
  append_of_read taken := by
    have whole : Retraces Binary.write [] (Binary.read : Reader (Option α)) := by
      refine .field fun lead : UInt8 => ?_
      split
      · exact .pure rfl
      · exact .field fun value => .pure rfl
      · exact .refuse
    exact whole.of_read taken

/-- A sequence of values is read back by their number. -/
theorem Reader.times_append (values : List α) (rest : List UInt8) :
    times Binary.read values.length (values.flatMap Binary.write ++ rest) =
      some (values, rest) := by
  induction values with
  | nil => rfl
  | cons first later ih =>
    rw [List.length_cons, times, List.flatMap_cons, List.append_assoc, read_bind_append,
      bind_of_read ih, pure_apply]

theorem Reader.append_of_times {count : Nat} {bytes rest : List UInt8} {values : List α}
    (taken : times Binary.read count bytes = some (values, rest)) :
    values.length = count ∧ bytes = values.flatMap Binary.write ++ rest := by
  induction count generalizing bytes values rest with
  | zero =>
    cases taken
    exact ⟨rfl, rfl⟩
  | succ count ih =>
    obtain ⟨first, middle, head, others⟩ := bind_eq_some.mp taken
    obtain ⟨later, ending, tail, last⟩ := bind_eq_some.mp others
    obtain ⟨size, rfl⟩ := ih tail
    cases last
    refine ⟨by rw [List.length_cons, size], ?_⟩
    rw [LawfulBinary.append_of_read head, List.flatMap_cons, List.append_assoc]

/-- A list is read back if its length fits into the eight bytes of its count. -/
theorem Binary.read_list_append {values : List α} (fits : values.length < LittleEndian.limit 8)
    (rest : List UInt8) : Binary.read (Binary.write values ++ rest) = some (values, rest) := by
  change (number 8 >>= times Binary.read)
    ((LittleEndian.toBytes 8 values.length ++ values.flatMap Binary.write) ++ rest) = _
  rw [List.append_assoc, bind_of_read (number_append fits _), times_append]

theorem Binary.append_of_read_list {bytes rest : List UInt8} {values : List α}
    (taken : Binary.read bytes = some (values, rest)) :
    values.length < LittleEndian.limit 8 ∧ bytes = Binary.write values ++ rest := by
  obtain ⟨count, later, head, others⟩ := bind_eq_some.mp taken
  obtain ⟨fits, rfl⟩ := append_of_number head
  obtain ⟨rfl, rfl⟩ := append_of_times others
  exact ⟨fits, (List.append_assoc _ _ _).symm⟩

end

end Lr35902
