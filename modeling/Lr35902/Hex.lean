/-! Hexadecimal text: numbers in upper case with a least width, and byte
strings in lower case with two digits a byte. -/
namespace Lr35902.Hex

/-- The upper-case digits of a number, without leading zeros. -/
def digits (number : Nat) : List Char := (Nat.toDigits 16 number).map Char.toUpper

/-- A number in upper-case digits, filled with zeros on the left up to a least
width. -/
def padded (width number : Nat) : String :=
  String.ofList (List.replicate (width - (digits number).length) '0' ++ digits number)

/-- A byte as two upper-case digits. -/
def byte (value : UInt8) : String := padded 2 value.toNat

/-- A byte string in lower case, two digits a byte. -/
def ofBytes (bytes : List UInt8) : String :=
  String.ofList <| bytes.flatMap fun value =>
    [Nat.digitChar (value.toNat / 16), Nat.digitChar (value.toNat % 16)]

end Lr35902.Hex
