import Lr35902.Datum

/-! The structured form of values: a JSON tree in which a constructor without
fields is its name and any other is an object whose only key is the
constructor's name. A reader takes every form that a writer gives. It passes
over members that it does not know, and refuses numbers outside their type,
lists of the wrong length and objects that lack a required member. -/
namespace Lr35902

/-- A JSON value. An object keeps its members in the order written. -/
inductive Json where
  | null
  | bool (value : Bool)
  | number (value : Int)
  | fraction (mantissa : Int) (places : Nat)
  | text (value : String)
  | array (items : List Json)
  | object (members : List (String × Json))
  deriving Inhabited

mutual

/-- The structured form of a layout. Type names around a value and the mark of
a present optional value do not show. -/
def Datum.json : Datum → Json
  | .number value => .number value
  | .missing => .null
  | .present value => value.json
  | .list items => .array (itemsJson items)
  | .wrapped _ value => value.json
  | .tag name => .text name
  | .tuple name [item] => .object [(name, item.json)]
  | .tuple name items => .object [(name, .array (itemsJson items))]
  | .record name fields => .object [(name, .object (fieldsJson fields))]

/-- The structured forms of items, in order. -/
def Datum.itemsJson : List Datum → List Json
  | [] => []
  | item :: rest => item.json :: itemsJson rest

/-- The structured forms of named fields, in order. -/
def Datum.fieldsJson : List (String × Datum) → List (String × Json)
  | [] => []
  | (name, value) :: rest => (name, value.json) :: fieldsJson rest

end

/-- The structured form of a value. -/
def toJson {α : Type} [Described α] (value : α) : Json := (datum value).json

/-- A type whose values can be read from their structured form. The value
`absent` stands for a member that an object leaves out, if it may. -/
class OfJson (α : Type) where
  ofJson? : Json → Option α
  absent : Option α := none

export OfJson (ofJson?)

namespace Json

/-- The constructor name in the form of a value without fields; an object with
a null in place of the fields says the same. -/
def bareName? : Json → Option String
  | .text name => some name
  | .object [(name, .null)] => some name
  | _ => none

/-- The value of a named member, which must be present unless its type allows
it to be left out. Other members do not matter. -/
def member? {α : Type} [OfJson α] (members : List (String × Json)) (name : String) : Option α :=
  match members.lookup name with
  | some value => ofJson? value
  | none => OfJson.absent

/-- Every item of an array, all of one type. -/
def items? {α : Type} [OfJson α] : Json → Option (List α)
  | .array items => items.mapM ofJson?
  | _ => none

end Json

instance : OfJson UInt8 where
  ofJson?
    | .number value => if 0 ≤ value ∧ value < 256 then some (UInt8.ofNat value.toNat) else none
    | _ => none

instance : OfJson UInt16 where
  ofJson?
    | .number value => if 0 ≤ value ∧ value < 65536 then some (UInt16.ofNat value.toNat) else none
    | _ => none

instance : OfJson Int8 where
  ofJson?
    | .number value => if -128 ≤ value ∧ value < 128 then some (Int8.ofInt value) else none
    | _ => none

instance {α : Type} [OfJson α] : OfJson (Option α) where
  ofJson?
    | .null => some none
    | json => (ofJson? json).map some
  absent := some none

instance {α : Type} [Enumerated α] : OfJson α where
  ofJson? json := json.bareName?.bind Enumerated.ofName?

end Lr35902
