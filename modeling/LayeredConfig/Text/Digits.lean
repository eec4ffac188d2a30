/-!
# Digits

Decimal and hexadecimal digits of ASCII, and the numbers that runs of them stand for.
-/

namespace LayeredConfig.Text

/-- A decimal digit of ASCII. -/
def isAsciiDigit (c : Char) : Bool :=
  '0' ≤ c && c ≤ '9'

/-- A digit of a hexadecimal number, in either case. -/
def isHexDigit (c : Char) : Bool :=
  isAsciiDigit c || ('a' ≤ c && c ≤ 'f') || ('A' ≤ c && c ≤ 'F')

/-- The value of a hexadecimal digit. -/
def hexValue (c : Char) : Nat :=
  if isAsciiDigit c then c.toNat - '0'.toNat
  else if 'a' ≤ c then c.toNat - 'a'.toNat + 10
  else c.toNat - 'A'.toNat + 10

/-- The number that hexadecimal digits stand for, most significant digit first. -/
def hexNumber (digits : List Char) : Nat :=
  digits.foldl (fun n d => 16 * n + hexValue d) 0

/-- The number that decimal digits stand for, most significant digit first. -/
def decimalNumber (digits : List Char) : Nat :=
  digits.foldl (fun n d => 10 * n + (d.toNat - '0'.toNat)) 0

end LayeredConfig.Text
