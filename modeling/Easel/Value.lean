import Easel.Number

/-!
# Easel.Value

What evaluation produces: numbers and booleans.
-/

namespace Easel

inductive Ty where
  | number
  | boolean
deriving DecidableEq, Repr

def Ty.text : Ty → String
  | .number => "number"
  | .boolean => "boolean"

inductive Value where
  | number (n : Number)
  | bool (b : Bool)
deriving DecidableEq, Repr

namespace Value

def ty : Value → Ty
  | .number _ => .number
  | .bool _ => .boolean

def number? : Value → Option Number
  | .number n => some n
  | .bool _ => none

def bool? : Value → Option Bool
  | .number _ => none
  | .bool b => some b

def text : Value → String
  | .number n => n.text
  | .bool true => "true"
  | .bool false => "false"

end Value
end Easel
