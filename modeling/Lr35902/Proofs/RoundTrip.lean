import Lr35902.Event.Json

/-! The structured form of events is read back without loss. The law is one class
for all types; it is proved for numbers, finite types, optional values and lists,
then for the operands, and last for events, where the parts of a compound are
read back like the whole. -/
namespace Lr35902

/-- A type whose values are read back from their structured form. -/
class LawfulJson (α : Type) [Described α] [OfJson α] : Prop where
  ofJson_json (value : α) : ofJson? (datum value).json = some value

attribute [simp] LawfulJson.ofJson_json

theorem LawfulJson.json_injective {α : Type} [Described α] [OfJson α] [LawfulJson α]
    {left right : α} (same : (datum left).json = (datum right).json) : left = right := by
  have both : some left = some right := by
    rw [← ofJson_json left, same, ofJson_json right]
  exact Option.some.inj both

theorem Datum.itemsJson_eq_map (items : List Datum) : itemsJson items = items.map json := by
  induction items with
  | nil => rfl
  | cons item later ih => rw [itemsJson, ih, List.map_cons]

namespace Json

section
variable {α : Type} [OfJson α]

/-- A member is found behind those of other names. -/
theorem member_cons_of_ne {name other : String} (differ : name ≠ other) (form : Json)
    (later : List (String × Json)) :
    (member? ((other, form) :: later) name : Option α) = member? later name := by
  have distinct : (name == other) = false := beq_eq_false_iff_ne.mpr differ
  simp only [member?, List.lookup_cons, distinct]

variable [Described α] [LawfulJson α]

@[simp] theorem member_cons_self (name : String) (value : α) (later : List (String × Json)) :
    member? ((name, (datum value).json) :: later) name = some value := by
  simp only [member?, List.lookup_cons_self, LawfulJson.ofJson_json]

theorem items_json (values : List α) : items? (datum values).json = some values := by
  change (Datum.itemsJson (values.map datum)).mapM ofJson? = some values
  rw [Datum.itemsJson_eq_map, List.map_map]
  induction values with
  | nil => rfl
  | cons value later ih =>
    rw [List.map_cons, List.mapM_cons, ih]
    simp

end

end Json

instance : LawfulJson UInt8 where
  ofJson_json value := by
    have bound := value.toNat_lt
    have inside : 0 ≤ (value.toNat : Int) ∧ (value.toNat : Int) < 256 := by omega
    simp only [datum, Datum.json, ofJson?]
    rw [if_pos inside, Int.toNat_natCast, UInt8.ofNat_toNat]

instance : LawfulJson UInt16 where
  ofJson_json value := by
    have bound := value.toNat_lt
    have inside : 0 ≤ (value.toNat : Int) ∧ (value.toNat : Int) < 65536 := by omega
    simp only [datum, Datum.json, ofJson?]
    rw [if_pos inside, Int.toNat_natCast, UInt16.ofNat_toNat]

instance : LawfulJson Int8 where
  ofJson_json value := by
    have inside : -128 ≤ value.toInt ∧ value.toInt < 128 := ⟨value.le_toInt, value.toInt_lt⟩
    simp only [datum, Datum.json, ofJson?]
    rw [if_pos inside, Int8.ofInt_toInt]

instance {α : Type} [Enumerated α] [LawfulEnumerated α] : LawfulJson α where
  ofJson_json value := Enumerated.ofName_name value

/-- A present optional value has no mark of its own, so it is told from a missing
one only if no value is written as null. -/
theorem LawfulJson.ofOption {α : Type} [Described α] [OfJson α] [LawfulJson α]
    (shown : ∀ value : α, (datum value).json ≠ .null) : LawfulJson (Option α) where
  ofJson_json value := by
    cases value with
    | none => rfl
    | some value =>
      have inner : ofJson? (datum value).json = some value := LawfulJson.ofJson_json value
      change ofJson? (datum value).json = some (some value)
      cases form : (datum value).json with
      | null => exact absurd form (shown value)
      | _ =>
        rw [form] at inner
        exact congrArg (Option.map some) inner

instance : LawfulJson (Option UInt8) := .ofOption fun _ null => nomatch null

instance : LawfulJson (Option Condition) := .ofOption fun _ null => nomatch null

instance : LawfulJson FlagDelta where
  ofJson_json delta := by
    change (Json.items? (datum delta.states).json >>= FlagDelta.ofStates?) = some delta
    rw [Json.items_json]
    exact FlagDelta.ofStates_states delta

instance : LawfulJson Carried where
  ofJson_json value := by
    change Carried.read? value.layout.json = some value
    cases value <;> simp [Carried.layout, Datum.json, Carried.read?]

instance : LawfulJson Operand where
  ofJson_json value := by
    change Operand.read? value.layout.json = some value
    cases value with
    | partialAddress high low =>
      simp [Operand.layout, Datum.json, Datum.fieldsJson, Operand.read?, Json.member_cons_of_ne]
    | _ => simp [Operand.layout, Datum.json, Operand.read?]

instance : LawfulJson Operand16 where
  ofJson_json value := by
    change Operand16.read? value.layout.json = some value
    cases value <;> simp [Operand16.layout, Datum.json, Datum.itemsJson, Operand16.read?]

namespace Event

/-- An object with one member is read by the member's name. -/
theorem read_json_of_fields {event : Event} {name : String} {form : Json}
    (written : event.layout.json = .object [(name, form)]) (single : name ≠ "Compound")
    (fields : ofFields? name form = some event) : read? event.layout.json = some event := by
  rw [written, read?, fields]
  rintro first second rfl
  exact absurd rfl single

section
variable {α β : Type} [Described α] [OfJson α] [LawfulJson α] [Described β] [OfJson β]
  [LawfulJson β] {name : String}

/-- A constructor with one field is read from the form of the field. -/
theorem read_json_of_value {build : α → Event} {value : α}
    (written : (build value).layout.json = .object [(name, (datum value).json)])
    (single : name ≠ "Compound")
    (fields : ∀ form, ofFields? name form = build <$> ofJson? form) :
    read? (build value).layout.json = some (build value) := by
  refine read_json_of_fields written single ?_
  rw [fields, LawfulJson.ofJson_json]
  rfl

/-- A constructor with two fields in order is read from an array of two. -/
theorem read_json_of_pair {build : α → β → Event} {first : α} {second : β}
    (written : (build first second).layout.json =
      .object [(name, .array [(datum first).json, (datum second).json])])
    (single : name ≠ "Compound")
    (fields : ∀ left right, ofFields? name (.array [left, right]) =
      return build (← ofJson? left) (← ofJson? right)) :
    read? (build first second).layout.json = some (build first second) := by
  refine read_json_of_fields written single ?_
  rw [fields, LawfulJson.ofJson_json, LawfulJson.ofJson_json]
  rfl

/-- A constructor with two named fields is read from an object with these members. -/
theorem read_json_of_members {build : α → β → Event} {first : α} {second : β} {one two : String}
    (written : (build first second).layout.json =
      .object [(name, .object [(one, (datum first).json), (two, (datum second).json)])])
    (single : name ≠ "Compound") (differ : two ≠ one)
    (fields : ∀ members, ofFields? name (.object members) =
      return build (← Json.member? members one) (← Json.member? members two)) :
    read? (build first second).layout.json = some (build first second) := by
  refine read_json_of_fields written single ?_
  rw [fields, Json.member_cons_self, Json.member_cons_of_ne differ, Json.member_cons_self]
  rfl

end

/-- Every event is read back by the kind of its fields. Only the two parts of a
compound are events themselves. -/
theorem read_json (event : Event) : read? event.layout.json = some event := by
  induction event with
  | compound first second ihFirst ihSecond =>
    have written : (compound first second).layout.json =
        .object [("Compound", .array [first.layout.json, second.layout.json])] := rfl
    rw [written, read?, ihFirst, ihSecond]
    rfl
  | nop | complement | decimalAdjust | retInterrupt | halt | stop | disableInterrupts
  | enableInterrupts => rfl
  | load | load16 | shift | unimplemented =>
    exact read_json_of_members rfl (by simp) (by simp) fun _ => rfl
  | bit op index operand =>
    refine read_json_of_fields rfl (by simp) ?_
    change (do
      return bit (← Json.member? _ "op") (← Json.member? _ "bit")
        (← Json.member? _ "operand")) = some (bit op index operand)
    simp [Datum.fieldsJson, Json.member_cons_of_ne]
  | jump | jumpRelative | call => exact read_json_of_pair rfl (by simp) fun _ _ => rfl
  | _ => exact read_json_of_value rfl (by simp) fun _ => rfl

end Event

instance : LawfulJson Event := ⟨Event.read_json⟩

namespace RoundTrip

/-- **The structured form of events is read back without loss.** Reading succeeds
for every event, however deep its compounds are nested, and gives exactly this
event; so different events have different forms. -/
theorem events_read_back :
    (∀ event : Event, ofJson? (toJson event) = some event) ∧
      ∀ left right : Event, toJson left = toJson right ↔ left = right := by
  constructor
  · intro event
    exact LawfulJson.ofJson_json event
  · intro left right
    constructor
    · intro same
      exact LawfulJson.json_injective same
    · rintro rfl
      rfl

/-- A missing condition is a null: in its place among the fields of a jump, and
in place of all fields of a return. -/
example : toJson (Event.compound (.ret none) (.jump none (.immediate 7))) =
    .object [("Compound", .array [.object [("Return", .null)],
      .object [("Jump", .array [.null, .object [("Immediate", .number 7)]])]])] := rfl

end RoundTrip

end Lr35902
