import Easel.Value

/-!
# Easel.Fault

Everything that can be wrong with a program, as causes, grouped by the stage that finds them, and
the diagnostics that put a cause on a line. The wording stands in the `message` functions and
nowhere else.
-/

namespace Easel

/-- Found while cutting the text into tokens. -/
inductive ScanFault where
  | unterminatedString
  | unrecognizedCharacter (c : Char)
  | numberOutOfRange (digits : String)
deriving DecidableEq, Repr

/-- Found while reading tokens as statements. -/
inductive GrammarFault where
  | unexpectedToken (expected found : String)
  | unknownStatement (found : String)
  | argumentCount (name : String) (expected found : Nat)
  | trailingComma (name : String)
  | missingCloseParen (name found : String)
deriving DecidableEq, Repr

/-- Found before anything runs: an expression of the wrong shape for its place, or labels that do
not give a jump table. -/
inductive StaticFault where
  | invalidArgument (name : String) (position : Nat) (expected : String)
  | unknownColor (name color : String)
  | nonBooleanCondition (label : String)
  | untypedExpression
  | duplicateLabel (label : String) (firstLine : Nat)
  | undefinedLabel (label : String)
deriving DecidableEq, Repr

/-- Found while a statement is carried out. -/
inductive RunFault where
  | undefinedVariable (name : String)
  | typeMismatch (context : String) (expected found : Ty)
  | argumentCount (name : String) (expected found : Nat)
  | unexpectedString
  | invalidColor (found : String)
  | divisionByZero
  | negativeExponent
  | overflow
  | invalidDirection (command : String) (dx dy : Number)
  | negativeLength (command what : String) (value : Number)
  | invalidBrushSize (size : Number)
  | outOfCanvas (x y size : Number)
deriving DecidableEq, Repr

inductive Fault where
  | scan (f : ScanFault)
  | grammar (f : GrammarFault)
  | static (f : StaticFault)
  | run (f : RunFault)
deriving DecidableEq, Repr

def ScanFault.message (line : Nat) : ScanFault → String
  | .unterminatedString => s!"unterminated string starting on line {line}"
  | .unrecognizedCharacter c => s!"unrecognized character '{c}' on line {line}"
  | .numberOutOfRange digits =>
    s!"number `{digits}` on line {line} does not fit in a 64-bit integer"

def GrammarFault.message (line : Nat) : GrammarFault → String
  | .unexpectedToken expected found =>
    s!"expected {expected} but found `{found}` on line {line}"
  | .unknownStatement found => s!"`{found}` does not start a statement (line {line})"
  | .argumentCount name expected found =>
    s!"{name} takes {expected} argument(s) but {found} were given on line {line}"
  | .trailingComma name => s!"trailing comma in the arguments of {name} on line {line}"
  | .missingCloseParen name found =>
    s!"missing `)` after the arguments of {name} on line {line}, found `{found}`"

def StaticFault.message (line : Nat) : StaticFault → String
  | .invalidArgument name position expected =>
    s!"argument {position} of {name} must be a {expected} (line {line})"
  | .unknownColor name color => s!"\"{color}\" is not a known color in {name} (line {line})"
  | .nonBooleanCondition label =>
    s!"the condition of GoTo [{label}] must be a boolean expression (line {line})"
  | .untypedExpression => s!"expression on line {line} is neither numeric nor boolean"
  | .duplicateLabel label firstLine =>
    s!"label `{label}` on line {line} is already declared on line {firstLine}"
  | .undefinedLabel label => s!"GoTo on line {line} jumps to undeclared label `{label}`"

def RunFault.message (line : Nat) : RunFault → String
  | .undefinedVariable name => s!"undefined variable `{name}` on line {line}"
  | .typeMismatch context expected found =>
    s!"{context} expects a {expected.text} but got a {found.text} on line {line}"
  | .argumentCount name expected found =>
    s!"{name} takes {expected} argument(s) but {found} were given on line {line}"
  | .unexpectedString => s!"a string can only be used as a color argument (line {line})"
  | .invalidColor found => s!"{found} is not a color (line {line})"
  | .divisionByZero => s!"division by zero on line {line}"
  | .negativeExponent => s!"negative exponent on line {line}"
  | .overflow => s!"arithmetic overflow on line {line}"
  | .invalidDirection command dx dy =>
    s!"{command} direction ({dx.text}, {dy.text}) must use -1, 0 or 1 (line {line})"
  | .negativeLength command what value =>
    s!"{command} expects a non-negative {what}, got {value.text} (line {line})"
  | .invalidBrushSize size => s!"brush size must be positive, got {size.text} (line {line})"
  | .outOfCanvas x y size =>
    s!"({x.text}, {y.text}) is outside the {size.text}x{size.text} canvas (line {line})"

def Fault.message (line : Nat) : Fault → String
  | .scan f => f.message line
  | .grammar f => f.message line
  | .static f => f.message line
  | .run f => f.message line

/-- A fault and the line of the program it is reported on. -/
structure Diagnostic where
  line : Nat
  fault : Fault
deriving DecidableEq, Repr

def Diagnostic.message (d : Diagnostic) : String := d.fault.message d.line

end Easel
