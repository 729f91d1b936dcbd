import DeviceDescription.Text

/-! # Decimal numerals with an upper bound -/
namespace DeviceDescription.Numeral

/-- The decimal digits of a number, without leading zeros. -/
def write (n : Nat) : Text := Nat.toDigits 10 n

def isDigits (t : Text) : Bool := !t.isEmpty && t.all Char.isDigit

/-- An optional plus sign before the digits means nothing. -/
def withoutSign : Text → Text
  | '+' :: r => r
  | t => t

/-- The number that an optionally signed run of digits denotes, if it is at most `bound`. -/
def read? (bound : Nat) (t : Text) : Option Nat :=
  let digits := withoutSign t
  if isDigits digits then
    let n := Nat.ofDigitChars 10 digits 0
    if n ≤ bound then some n else none
  else none

def maxWord32 : Nat := 4294967295
def maxWord64 : Nat := 18446744073709551615

end DeviceDescription.Numeral
