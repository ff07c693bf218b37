/-
**Decimal integers of 64 bits.**

* `Decimal.value`: the number a run of digits writes, leading zeros allowed;
* `Decimal.fit?`: a whole number as a 64-bit integer, if it lies in [-2^63, 2^63 - 1];
* `Decimal.read?`: an optional single sign and one or more digits, nothing else;
* `Decimal.text`: the shortest decimal form, a minus sign for negative numbers.
-/

namespace ScopedScript.Decimal

def digit (char : Char) : Nat := char.toNat - '0'.toNat

/-- The number a run of digits writes. -/
def value (digits : List Char) : Nat :=
  digits.foldl (fun number char => number * 10 + digit char) 0

/-- A whole number as a 64-bit integer, if it is in range. -/
def fit? (number : Int) : Option Int64 :=
  if Int64.minValue.toInt ≤ number ∧ number ≤ Int64.maxValue.toInt then some (Int64.ofInt number)
  else none

def digits? (chars : List Char) : Option Nat :=
  if !chars.isEmpty && chars.all Char.isDigit then some (value chars) else none

/-- An integer written as an optional single sign and digits. -/
def read? (text : String) : Option Int64 :=
  match text.toList with
  | '-' :: digits => (digits? digits).bind fun number => fit? (-(number : Int))
  | '+' :: digits => (digits? digits).bind fun number => fit? number
  | digits => (digits? digits).bind fun number => fit? number

def natText (number : Nat) : String := String.ofList (Nat.toDigits 10 number)

def text (number : Int64) : String :=
  if number < 0 then "-" ++ natText number.toInt.natAbs else natText number.toInt.natAbs

end ScopedScript.Decimal
