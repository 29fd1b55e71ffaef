import Easel.Fault
import Easel.Program

/-!
# Easel.Program.Labels

The jump table of a program: for every label the place of the statement that declares it.

A label declared twice is reported before a jump to a label that is not declared at all, and of
each kind the first in the program.
-/

namespace Easel

/-- A declared label, the place of its statement counted from zero, and its line. -/
structure Declaration where
  label : String
  place : Nat
  line : Nat
deriving DecidableEq, Repr

structure LabelTable where
  declarations : List Declaration
deriving DecidableEq, Repr

namespace LabelTable

def find? (t : LabelTable) (label : String) : Option Declaration :=
  t.declarations.find? fun d => d.label == label

/-- The place to go on at after a jump to `label`. -/
def place? (t : LabelTable) (label : String) : Option Nat :=
  (t.find? label).map Declaration.place

def size (t : LabelTable) : Nat := t.declarations.length

def isEmpty (t : LabelTable) : Bool := t.declarations.isEmpty

def insert (t : LabelTable) (d : Declaration) : LabelTable := ⟨t.declarations ++ [d]⟩

/-- Enters the labels of the statements from `place` on, up to the first one entered before. -/
def collect (t : LabelTable) (place : Nat) : Program → Except Diagnostic LabelTable
  | [] => .ok t
  | s :: rest =>
    match s.action with
    | .label l =>
      match t.find? l with
      | some d => .error ⟨s.line, .static (.duplicateLabel l d.line)⟩
      | none => (t.insert ⟨l, place, s.line⟩).collect (place + 1) rest
    | _ => t.collect (place + 1) rest

/-- Checks that every jump has a label to go to. -/
def checkJumps (t : LabelTable) : Program → Except Diagnostic Unit
  | [] => .ok ()
  | s :: rest =>
    match s.action with
    | .goTo l _ =>
      match t.find? l with
      | some _ => t.checkJumps rest
      | none => .error ⟨s.line, .static (.undefinedLabel l)⟩
    | _ => t.checkJumps rest

end LabelTable

/-- The jump table of a program whose labels are in order. -/
def Program.labels (p : Program) : Except Diagnostic LabelTable :=
  match LabelTable.collect ⟨[]⟩ 0 p with
  | .error d => .error d
  | .ok t =>
    match t.checkJumps p with
    | .error d => .error d
    | .ok () => .ok t

end Easel
