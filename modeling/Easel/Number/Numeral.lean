import Easel.Number

/-!
# Easel.Number.Numeral

Reading a number from a text that holds nothing else: an optional sign and decimal digits. The text
is read from the left and the first thing wrong with it is reported.
-/

namespace Easel

inductive NumeralFault where
  | empty
  | invalidDigit
  | tooLarge
  | tooSmall
deriving DecidableEq, Repr

def NumeralFault.message : NumeralFault → String
  | .empty => "cannot parse integer from empty string"
  | .invalidDigit => "invalid digit found in string"
  | .tooLarge => "number too large to fit in target type"
  | .tooSmall => "number too small to fit in target type"

namespace Number

/-- Appends digits to a number, away from zero on the side of the sign. -/
def appendDigits (negative : Bool) : Number → List Char → Except NumeralFault Number
  | n, [] => .ok n
  | n, c :: cs =>
    if c.isDigit then
      let digit : Int := c.toNat - '0'.toNat
      match ofInt? (10 * n.toInt + if negative then -digit else digit) with
      | some m => appendDigits negative m cs
      | none => .error (if negative then .tooSmall else .tooLarge)
    else .error .invalidDigit

def ofNumeral (s : String) : Except NumeralFault Number :=
  match s.toList with
  | [] => .error .empty
  | ['+'] => .error .invalidDigit
  | ['-'] => .error .invalidDigit
  | '+' :: digits => appendDigits false 0 digits
  | '-' :: digits => appendDigits true 0 digits
  | digits => appendDigits false 0 digits

end Number
end Easel
