import Easel.Fault

/-!
# Easel.Source

Program text seen as numbered lines, and the report of a diagnostic, which quotes the line it is
about.
-/

namespace Easel
namespace Source

/-- The lines of a text, which newlines separate: one more line than newlines. -/
def lines : List Char → List (List Char)
  | [] => [[]]
  | c :: cs =>
    if c = '\n' then [] :: lines cs
    else
      match lines cs with
      | [] => [[c]]
      | l :: ls => (c :: l) :: ls

/-- A line without the carriage returns at its end. -/
def trimReturns (line : List Char) : List Char :=
  (line.reverse.dropWhile (· == '\r')).reverse

/-- The text of a line. Lines count from one. -/
def lineText? (text : String) : Nat → Option String
  | 0 => none
  | n + 1 => (lines text.toList)[n]?.map fun l => String.ofList (trimReturns l)

/-- Text brought to at least `width` characters by blanks on its left. -/
def alignRight (width : Nat) (s : String) : String :=
  String.ofList (List.replicate (width - s.length) ' ') ++ s

theorem alignRight_eq_leftpad (width : Nat) (s : String) :
    alignRight width s = String.ofList (s.toList.leftpad width ' ') := by
  rw [alignRight, List.leftpad, String.ofList_append, String.ofList_toList, String.length_toList]

end Source

/-- The message of a diagnostic and, if the text has such a line, the line below it. -/
def Diagnostic.report (text : String) (d : Diagnostic) : String :=
  "ERROR: " ++ d.message ++ "\n" ++
    match Source.lineText? text d.line with
    | some l => Source.alignRight 4 (toString d.line) ++ " | " ++ l ++ "\n"
    | none => ""

end Easel
