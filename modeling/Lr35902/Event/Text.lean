import Lr35902.Event.Json
import Lr35902.Log

/-! Reading events back from their one-line text, and so from the log. A text is
read in words and marks: a word alone is a number or a constructor without
fields, and a bracket behind a word opens the fields of the constructor that it
names. The layout so found leads to an event by way of its structured form, and
the event is taken only if the text is its own. -/
namespace Lr35902

namespace Datum

/-- Numbers and names are made of these. -/
def isWordChar (char : Char) : Bool := char.isAlphanum || char == '-'

/-- The type names that a text shows around a value. -/
def typeNames : List String := ["FlagDelta"]

/-- Words with a meaning of their own, so that no constructor bears them. -/
def reservedNames : List String := "None" :: "Some" :: typeNames

/-- The name of a constructor or a field: letters and digits, but no digit in
front. -/
def isName (name : String) : Bool :=
  match name.toList with
  | [] => false
  | first :: later =>
    !first.isDigit && (first :: later).all Char.isAlphanum && !reservedNames.contains name

/-- A number without a sign, in decimal. -/
def ofDigits? (digits : List Char) : Option Nat :=
  if digits ≠ [] ∧ digits.all Char.isDigit then some (Nat.ofDigitChars 10 digits 0) else none

/-- A number in decimal, with a sign in front if it is negative. -/
def ofDecimal? : List Char → Option Int
  | '-' :: digits => (ofDigits? digits).map fun number : Nat => -(number : Int)
  | digits => (ofDigits? digits).map fun number : Nat => (number : Int)

/-- What a word stands for if it stands alone. -/
def ofWord? (word : List Char) : Option Datum :=
  match ofDecimal? word with
  | some value => some (.number value)
  | none =>
    let name := String.ofList word
    if name = "None" then some .missing
    else if isName name then some (.tag name)
    else none

/-- What a word stands for together with the items in the parentheses behind it. -/
def ofItems (name : String) : List Datum → Datum
  | [value] =>
    if name = "Some" then .present value
    else if typeNames.contains name then .wrapped name value
    else .tuple name [value]
  | items => .tuple name items

/-- Takes a value off the front of a text and leaves the rest. -/
abbrev TextReader (α : Type) := List Char → Option (α × List Char)

/-- Values with commas between them, up to where no further value stands, but no
more than a given number. -/
def readSeparated {α : Type} (read : TextReader α) : Nat → List Char → List α × List Char
  | 0, text => ([], text)
  | bound + 1, text =>
    match read text with
    | none => ([], text)
    | some (value, ',' :: ' ' :: rest) =>
      let (later, rest) := readSeparated read bound rest
      (value :: later, rest)
    | some (value, rest) => ([value], rest)

/-- A value behind its name and a colon. -/
def readField (read : TextReader Datum) : TextReader (String × Datum) := fun text =>
  match text.dropWhile isWordChar with
  | ':' :: ' ' :: rest => do
    let (value, rest) ← read rest
    return ((String.ofList (text.takeWhile isWordChar), value), rest)
  | _ => none

/-- Takes what belongs to the word in front, and tells from it what the word is. -/
def readBehind (read : TextReader Datum) (word : List Char) : TextReader Datum
  | '(' :: text =>
    match readSeparated read text.length text with
    | (items, ')' :: rest) => some (ofItems (String.ofList word) items, rest)
    | _ => none
  | '[' :: text =>
    match readSeparated read text.length text with
    | (items, ']' :: rest) => some (.list items, rest)
    | _ => none
  | ' ' :: '\x7b' :: ' ' :: text =>
    match readSeparated (readField read) text.length text with
    | (fields, ' ' :: '\x7d' :: rest) => some (.record (String.ofList word) fields, rest)
    | _ => none
  | text => (ofWord? word).map (·, text)

/-- Takes a value with a limited number of levels. -/
def readNested : Nat → TextReader Datum
  | 0, _ => none
  | depth + 1, text =>
    readBehind (readNested depth) (text.takeWhile isWordChar) (text.dropWhile isWordChar)

/-- The layout that a text is read as. No layout has more levels than its text has
characters. -/
def ofText? (text : String) : Option Datum :=
  match readNested (text.toList.length + 1) text.toList with
  | some (layout, []) => some layout
  | _ => none

end Datum

/-- The event with this one-line text, if there is one. -/
def Event.ofText? (text : String) : Option Event :=
  ((Datum.ofText? text).bind fun layout => ofJson? layout.json).filter (describe · == text)

/-- The event that the record of its decoding tells of. -/
def Event.ofRecord? (record : LogRecord) : Option Event :=
  ("decoded ".toList.isPrefixOf? record.message.toList).bind fun text =>
    ofText? (String.ofList text)

/-- The events that a log tells of, in order. Only its traces are looked at. -/
def recount (log : List LogRecord) : List Event :=
  (log.filter (·.level == .trace)).filterMap Event.ofRecord?

end Lr35902
