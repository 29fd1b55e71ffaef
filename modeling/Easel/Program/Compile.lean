import Easel.Program.Parse
import Easel.Program.Run
import Easel.Token.Scan

/-!
# Easel.Program.Compile

From program text to a program that can run, and to the outcome of running it.
-/

namespace Easel
namespace Program

/-- Scans and parses a text. -/
def ofText (text : String) : Except Diagnostic Program := do
  let ts ← Token.scan text
  parse ts

/-- Scans and parses a text and checks its labels. -/
def compile (text : String) : Except Diagnostic Program := do
  let p ← ofText text
  let _ ← p.labels
  return p

/-- Compiles a text and runs it with a new robot on a blank canvas. -/
def runText (fuel : Nat) (text : String) (size : Number) : Option Outcome :=
  match compile text with
  | .error d => some (.failed d (.blank size))
  | .ok p => p.execute fuel (.blank size)

end Program
end Easel
