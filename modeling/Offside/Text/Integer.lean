/-!
# Decimal integers

Reading a decimal integer, with or without a sign, that fits in 64 bits.
-/

namespace Offside
namespace Text

/-- The value of a digit. -/
def digitValue (c : Char) : Nat := c.toNat - '0'.toNat

/-- The number that a list of digits stands for. -/
def digitsValue (digits : List Char) : Nat :=
  digits.foldl (fun value c => 10 * value + digitValue c) 0

/-- The number that a text stands for, if it is one or more digits. -/
def readDigits? (text : List Char) : Option Nat :=
  if text ≠ [] && text.all Char.isDigit then some (digitsValue text) else none

/-- The numbers that fit in 64 bits with a sign. -/
def fitsInt64 (value : Int) : Bool :=
  -0x8000000000000000 ≤ value && value ≤ 0x7fffffffffffffff

/-- The number that a text stands for: digits, perhaps after one sign, that fit in 64
bits. -/
def readInt64? (text : List Char) : Option Int :=
  let value? : Option Int :=
    match text with
    | '+' :: digits => (readDigits? digits).map Int.ofNat
    | '-' :: digits => (readDigits? digits).map fun value => -Int.ofNat value
    | digits => (readDigits? digits).map Int.ofNat
  value?.filter fitsInt64

end Text
end Offside
