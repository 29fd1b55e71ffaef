import Easel.CommandLine

/-!
# Easel.Main

The command: reads the file that its arguments name and prints the answer of `CommandLine.respond`.
-/

namespace Easel

/-- More steps than any machine takes. -/
def patience : Nat := 1 <<< 62

/-- Why a file could not be read. -/
def readFailure : IO.Error → String
  | .noFileOrDirectory _ _ _ => "No such file or directory (os error 2)"
  | .permissionDenied _ _ _ => "Permission denied (os error 13)"
  | e => toString e

/-- The content of the file that the arguments name, if they name one. -/
def readProgram (args : List String) : IO (Except String String) := do
  match CommandLine.readArgs args with
  | .error _ => return .error ""
  | .ok (path, _) =>
    match ← (IO.FS.readFile path).toBaseIO with
    | .ok text => return .ok text
    | .error e => return .error (readFailure e)

end Easel

def main (args : List String) : IO UInt32 := do
  let content ← Easel.readProgram args
  match Easel.CommandLine.respond Easel.patience "easel" args fun _ => content with
  | none => return 1
  | some r =>
    IO.print r.stdout
    IO.eprint r.stderr
    return r.exit.toUInt32
