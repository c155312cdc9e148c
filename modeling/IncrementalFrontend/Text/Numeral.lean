/-!
Unsigned decimal numerals as the command line accepts them: one optional plus sign, then at least
one digit, leading zeros allowed, and a value within a bound.
-/
namespace IncrementalFrontend.Text

def digitsValue (digits : List Char) : Nat :=
  digits.foldl (fun value c => 10 * value + (c.toNat - '0'.toNat)) 0

def numeralDigits : List Char → List Char
  | '+' :: digits => digits
  | digits => digits

def readNumeral (bound : Nat) (text : String) : Option Nat :=
  let digits := numeralDigits text.toList
  if digits ≠ [] ∧ digits.all Char.isDigit ∧ digitsValue digits < bound then
    some (digitsValue digits)
  else none

end IncrementalFrontend.Text
