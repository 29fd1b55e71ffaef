import Easel.Expr

/-!
# Easel.Program

Programs: statements in order, each with the line it starts on.
-/

namespace Easel

inductive Action where
  /-- Gives a variable a value. The type is the shape of the expression as written. -/
  | assign (name : String) (ty : Ty) (value : Expr)
  | command (c : Command) (args : List Expr)
  /-- Marks a place to jump to. -/
  | label (name : String)
  /-- Jumps to a label if the condition holds. -/
  | goTo (label : String) (condition : Expr)
  /-- Evaluates an expression for nothing. -/
  | discard (value : Expr)
deriving Repr

/-- The expressions that stand directly in a statement. -/
def Action.exprs : Action → List Expr
  | .assign _ _ e => [e]
  | .command _ args => args
  | .label _ => []
  | .goTo _ e => [e]
  | .discard e => [e]

structure Stmt where
  line : Nat
  action : Action
deriving Repr

abbrev Program := List Stmt

/-- Every expression of a program, statement by statement, in preorder. -/
def Program.nodes (p : Program) : List Expr :=
  p.flatMap fun s => Expr.nodesAll s.action.exprs

end Easel
