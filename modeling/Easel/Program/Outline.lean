import Easel.Program

/-!
# Easel.Program.Outline

The outline of a program: a line for every statement and every expression, operands below their
operator and two blanks further in.
-/

namespace Easel

structure OutlineLine where
  depth : Nat
  text : String
deriving DecidableEq, Repr

/-- The line as written, with its indentation and its newline. -/
def OutlineLine.render (l : OutlineLine) : String :=
  String.ofList (List.replicate (2 * l.depth) ' ') ++ l.text ++ "\n"

namespace Expr

/-- What the line of an expression says of the expression itself. -/
def caption : Expr → String
  | .number n => "Literal " ++ n.text
  | .bool b => "Literal " ++ (Value.bool b).text
  | .text s => "Literal \"" ++ s ++ "\""
  | .var x => "Variable " ++ x
  | .unary op _ => "Unary " ++ op.symbol
  | .binary _ op _ => "Binary " ++ op.symbol
  | .group _ => "Grouping"
  | .call q _ => "Call " ++ q.keyword

mutual

def outline (depth : Nat) : Expr → List OutlineLine
  | .unary op e => ⟨depth, caption (.unary op e)⟩ :: outline (depth + 1) e
  | .binary l op r =>
    ⟨depth, caption (.binary l op r)⟩ :: (outline (depth + 1) l ++ outline (depth + 1) r)
  | .group e => ⟨depth, caption (.group e)⟩ :: outline (depth + 1) e
  | .call q args => ⟨depth, caption (.call q args)⟩ :: outlineAll (depth + 1) args
  | e => [⟨depth, caption e⟩]

def outlineAll (depth : Nat) : List Expr → List OutlineLine
  | [] => []
  | e :: es => outline depth e ++ outlineAll depth es

end

end Expr

def Action.caption : Action → String
  | .assign x ty _ => "Assign " ++ x ++ " (" ++ ty.text ++ ")"
  | .command c _ => "Command " ++ c.keyword
  | .label l => "Label " ++ l
  | .goTo l _ => "GoTo [" ++ l ++ "]"
  | .discard _ => "Expression"

def Stmt.outline (s : Stmt) : List OutlineLine :=
  ⟨0, toString s.line ++ ": " ++ s.action.caption⟩ :: Expr.outlineAll 1 s.action.exprs

namespace Program

def outlineLines (p : Program) : List OutlineLine := p.flatMap Stmt.outline

def outline (p : Program) : String :=
  String.join (p.outlineLines.map OutlineLine.render)

end Program
end Easel
