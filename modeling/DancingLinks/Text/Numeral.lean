/-! Unsigned decimal numerals, as a command line takes them: ASCII digits, at least one, after a
plus sign if there is one, for a number below a bound. Leading zeros do no harm. -/
namespace DancingLinks.Text

def digit? (c : Char) : Option Nat := if c.isDigit then some (c.toNat - '0'.toNat) else none

def digitsValue? (value : Nat) : List Char → Option Nat
  | [] => some value
  | c :: rest => do
    let digit ← digit? c
    digitsValue? (10 * value + digit) rest

def dropPlus : List Char → List Char
  | '+' :: rest => rest
  | chars => chars

def numeral? (bound : Nat) (text : String) : Option Nat := do
  let digits := dropPlus text.toList
  if digits.isEmpty then none
  let value ← digitsValue? 0 digits
  if value < bound then some value else none

end DancingLinks.Text
