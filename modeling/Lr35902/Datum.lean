import Lr35902.Enumerated

/-! Values laid out by the names of their constructors and fields. One layout
of a value serves both of its written forms, the one-line text below and the
structured form, so the two cannot drift apart. -/
namespace Lr35902

/-- The layout of a value. A `wrapped` value is one with a type name around it
that only the text shows, and `missing` and `present` are the two forms of an
optional value. -/
inductive Datum where
  | number (value : Int)
  | missing
  | present (value : Datum)
  | list (items : List Datum)
  | wrapped (name : String) (value : Datum)
  | tag (name : String)
  | tuple (name : String) (items : List Datum)
  | record (name : String) (fields : List (String × Datum))

/-- A type whose values can be laid out. -/
class Described (α : Type) where
  datum : α → Datum

export Described (datum)

namespace Datum

mutual

/-- The one-line text: names as they are, items in parentheses, named fields in
braces, numbers in decimal. -/
def text : Datum → String
  | number value => toString value
  | missing => "None"
  | present value => "Some(" ++ value.text ++ ")"
  | list items => "[" ++ itemsText items ++ "]"
  | wrapped name value => name ++ "(" ++ value.text ++ ")"
  | tag name => name
  | tuple name items => name ++ "(" ++ itemsText items ++ ")"
  | record name fields => name ++ " \x7b " ++ fieldsText fields ++ " \x7d"

/-- Items separated by commas. -/
def itemsText : List Datum → String
  | [] => ""
  | [item] => item.text
  | item :: rest => item.text ++ ", " ++ itemsText rest

/-- Named fields separated by commas. -/
def fieldsText : List (String × Datum) → String
  | [] => ""
  | [(name, value)] => name ++ ": " ++ value.text
  | (name, value) :: rest => name ++ ": " ++ value.text ++ ", " ++ fieldsText rest

end

end Datum

/-- The one-line text of a value. -/
def describe {α : Type} [Described α] (value : α) : String := (datum value).text

instance : Described UInt8 := ⟨fun value => .number value.toNat⟩

instance : Described UInt16 := ⟨fun value => .number value.toNat⟩

instance : Described Int8 := ⟨fun value => .number value.toInt⟩

instance : Described Nat := ⟨fun value => .number value⟩

instance {α : Type} [Enumerated α] : Described α := ⟨fun value => .tag (Enumerated.name value)⟩

instance {α : Type} [Described α] : Described (Option α) where
  datum
    | none => .missing
    | some value => .present (datum value)

instance {α : Type} [Described α] : Described (List α) := ⟨fun values => .list (values.map datum)⟩

end Lr35902
