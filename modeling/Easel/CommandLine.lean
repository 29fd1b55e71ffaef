import Easel.Listing
import Easel.Number.Numeral
import Easel.Program.Compile
import Easel.Program.Outline

/-!
# Easel.CommandLine

The program as a command: what its arguments ask for, and what it prints and exits with for a given
text. A `Job` prints as it goes and stops at the first diagnostic, so what was printed before stays.
-/

namespace Easel

structure Options where
  canvasSize : Number := 64
  tokens : Bool := false
  outline : Bool := false
  /-- Asks for a fuller log. The log is kept beside the answer and is no part of it. -/
  verbose : Bool := false
deriving DecidableEq, Repr

inductive UsageFault where
  | invalidSize (text reason : String)
  | missingSize
  | missingPath
  | repeated (option : String)
  | unexpectedArgument (arg : String)
deriving DecidableEq, Repr

namespace UsageFault

def message : UsageFault → String
  | .invalidSize text reason =>
    s!"invalid value '{text}' for '--canvas-size <CANVAS_SIZE>': {reason}"
  | .missingSize =>
    "a value is required for '--canvas-size <CANVAS_SIZE>' but none was supplied"
  | .missingPath => "the following required arguments were not provided:\n  <INPUT>"
  | .repeated option => s!"the argument '{option}' cannot be used multiple times"
  | .unexpectedArgument arg => s!"unexpected argument '{arg}' found"

/-- The arguments that the program takes, for a fault in how they are put together; a fault in the
value of one argument does without. -/
def usage (program : String) : UsageFault → String
  | .invalidSize _ _ | .missingSize => ""
  | .missingPath => s!"\n\nUsage: {program} <INPUT>"
  | .repeated _ | .unexpectedArgument _ => s!"\n\nUsage: {program} [OPTIONS] <INPUT>"

end UsageFault

/-- What the command answers, apart from its log. -/
structure Response where
  exit : Nat
  stdout : String
  stderr : String
deriving DecidableEq, Repr

/-- An argument by its spelling. Those that ask for help or for the version are not known here. -/
inductive Arg where
  | tokens
  | outline
  | verbose
  /-- The canvas size, with the value if it stands in the same argument. -/
  | size (value? : Option String)
  | unknown (option : String)
  | word (text : String)
deriving DecidableEq, Repr

namespace Arg

/-- The value of an argument of the form `--canvas-size=value`. -/
def sizeValue? (arg : String) : Option String :=
  let flag := "--canvas-size=".toList
  if flag.isPrefixOf arg.toList then some (String.ofList (arg.toList.drop flag.length)) else none

/-- What starts with a hyphen and is more than that is an option: by its name after two hyphens, by
its first letter after one. -/
def ofText (arg : String) : Arg :=
  if arg = "--tokens" then .tokens
  else if arg = "--ast" then .outline
  else if arg = "--verbose" ∨ arg = "-v" then .verbose
  else if arg = "--canvas-size" then .size none
  else
    match sizeValue? arg with
    | some value => .size (some value)
    | none =>
      match arg.toList with
      | '-' :: '-' :: name => .unknown (String.ofList ('-' :: '-' :: name.takeWhile (· != '=')))
      | '-' :: letter :: _ => .unknown (String.ofList ['-', letter])
      | _ => .word arg

end Arg

/-- What the arguments read so far ask for. -/
structure Request where
  path? : Option String := none
  size? : Option Number := none
  tokens : Bool := false
  outline : Bool := false
  verbose : Bool := false
deriving DecidableEq, Repr

namespace CommandLine

/-- A canvas size is a number from one up. -/
def canvasSize (text : String) : Except UsageFault Number :=
  match Number.ofNumeral text with
  | .error f => .error (.invalidSize text f.message)
  | .ok n =>
    if n < 1 then
      .error (.invalidSize text (n.text ++ " is not in 1.." ++ Number.text Int64.maxValue))
    else .ok n

end CommandLine

namespace Request

def setSize (r : Request) (text : String) : Except UsageFault Request :=
  match r.size? with
  | some _ => .error (.repeated "--canvas-size <CANVAS_SIZE>")
  | none =>
    match CommandLine.canvasSize text with
    | .error f => .error f
    | .ok n => .ok { r with size? := some n }

/-- Takes in one argument. Every option is given at most once, and there is one path. -/
def add (r : Request) : Arg → Except UsageFault Request
  | .tokens =>
    if r.tokens then .error (.repeated "--tokens") else .ok { r with tokens := true }
  | .outline =>
    if r.outline then .error (.repeated "--ast") else .ok { r with outline := true }
  | .verbose =>
    if r.verbose then .error (.repeated "--verbose") else .ok { r with verbose := true }
  | .size (some text) => r.setSize text
  | .size none => .error .missingSize
  | .unknown option => .error (.unexpectedArgument option)
  | .word text =>
    match r.path? with
    | some _ => .error (.unexpectedArgument text)
    | none => .ok { r with path? := some text }

/-- Takes in the argument after a canvas size that has no value yet: an option is none. -/
def addSize (r : Request) : Arg → Except UsageFault Request
  | .word text => r.setSize text
  | .unknown option => .error (.unexpectedArgument option)
  | _ => .error .missingSize

def options (r : Request) : Options :=
  { canvasSize := r.size?.getD 64, tokens := r.tokens, outline := r.outline,
    verbose := r.verbose }

end Request

namespace CommandLine

/-- Takes in arguments from the left, options in any order. -/
def takeArgs (r : Request) : List String → Except UsageFault Request
  | [] => .ok r
  | arg :: rest =>
    match Arg.ofText arg, rest with
    | .size none, value :: rest =>
      match r.addSize (Arg.ofText value) with
      | .error f => .error f
      | .ok r => takeArgs r rest
    | a, rest =>
      match r.add a with
      | .error f => .error f
      | .ok r => takeArgs r rest

/-- The path of the program to run and how to run it. -/
def readArgs (args : List String) : Except UsageFault (String × Options) :=
  match takeArgs {} args with
  | .error f => .error f
  | .ok r =>
    match r.path? with
    | some path => .ok (path, r.options)
    | none => .error .missingPath

/-- The answer to arguments that cannot be followed. -/
def refuse (program : String) (f : UsageFault) : Response :=
  ⟨2, "", "error: " ++ f.message ++ f.usage program ++
    "\n\nFor more information, try '--help'.\n"⟩

/-- The answer when the file with the program cannot be read. -/
def unreadable (path reason : String) : Response :=
  ⟨2, "", "ERROR: cannot read " ++ path ++ ": " ++ reason ++ "\n"⟩

end CommandLine

/-- What the command does with a text: it prints, and comes to its end, stops at a diagnostic or
never answers. -/
abbrev Job := ExceptT Diagnostic (StateT String Option)

namespace Job

def print (s : String) : Job Unit := modify (· ++ s)

/-- No end is come to. -/
def never : Job Unit := fun _ => none

/-- Lists the strokes in order, then the robot, then its variables by name. -/
def list (w : Studio) : Job Unit := do
  w.canvas.strokes.toList.forM fun k => print (k.listing ++ "\n")
  print w.robot.stance
  w.robot.variables.toList.forM fun v => print (variableListing v)

/-- Scans the text, on its own account, and lists the tokens. -/
def listTokens (text : String) : Job Unit := do
  let ts ← ofExcept (Token.scan text)
  ts.forM fun t => print t.listing

/-- Runs a program on a blank canvas and lists what the run has left, whether it failed or not. -/
def execute (fuel : Nat) (size : Number) (p : Program) : Job Unit :=
  match p.execute fuel (.blank size) with
  | some (.finished w) => list w
  | some (.failed d w) => do
    list w
    throw d
  | _ => never

def ofText (fuel : Nat) (o : Options) (text : String) : Job Unit := do
  if o.tokens then
    listTokens text
  let p ← ofExcept (Program.compile text)
  if o.outline then
    print p.outline
  execute fuel o.canvasSize p

end Job

namespace CommandLine

/-- The answer to a text: a diagnostic becomes the report and a failure for an exit code. -/
def perform (fuel : Nat) (o : Options) (text : String) : Option Response :=
  match (Job.ofText fuel o text).run.run "" with
  | some (.ok _, out) => some ⟨0, out, ""⟩
  | some (.error d, out) => some ⟨1, out, d.report text⟩
  | none => none

/-- Runs the program in the file at `path`. `read` gives the content of a file, or why it cannot be
read. -/
def answer (fuel : Nat) (path : String) (o : Options) (read : String → Except String String) :
    Option Response :=
  match read path with
  | .error reason => some (unreadable path reason)
  | .ok text => perform fuel o text

/-- Answers a command line of the program with the given name. -/
def respond (fuel : Nat) (program : String) (args : List String)
    (read : String → Except String String) : Option Response :=
  match readArgs args with
  | .error f => some (refuse program f)
  | .ok (path, o) => answer fuel path o read

end CommandLine
end Easel
