import Easel.Operator
import Easel.Keyword

/-!
# Easel.Expr

Expressions as trees. A tree may be built by hand, so nothing here promises that a query has as
many arguments as it takes or that a string names a color.

* `Expr.nodes` lists a tree in preorder.
* `Expr.induct` is induction with one hypothesis for every argument of a query.
-/

namespace Easel

inductive Expr where
  | number (n : Number)
  | bool (b : Bool)
  | text (s : String)
  | var (name : String)
  | unary (op : UnaryOp) (arg : Expr)
  | binary (lhs : Expr) (op : BinaryOp) (rhs : Expr)
  | group (inner : Expr)
  | call (query : Query) (args : List Expr)
deriving Repr

namespace Expr

/-- The text of a string literal. -/
def text? : Expr → Option String
  | .text s => some s
  | _ => none

mutual

/-- The expression and all expressions in it, each before its operands, left to right. -/
def nodes : Expr → List Expr
  | .number n => [.number n]
  | .bool b => [.bool b]
  | .text s => [.text s]
  | .var x => [.var x]
  | .unary op e => .unary op e :: nodes e
  | .binary l op r => .binary l op r :: (nodes l ++ nodes r)
  | .group e => .group e :: nodes e
  | .call q args => .call q args :: nodesAll args

def nodesAll : List Expr → List Expr
  | [] => []
  | e :: es => nodes e ++ nodesAll es

end

theorem induct {P : Expr → Prop}
    (number : ∀ n, P (.number n)) (bool : ∀ b, P (.bool b)) (text : ∀ s, P (.text s))
    (var : ∀ x, P (.var x)) (unary : ∀ op e, P e → P (.unary op e))
    (binary : ∀ l op r, P l → P r → P (.binary l op r)) (group : ∀ e, P e → P (.group e))
    (call : ∀ q args, (∀ e ∈ args, P e) → P (.call q args)) (e : Expr) : P e :=
  @Expr.rec P (fun es => ∀ e ∈ es, P e) number bool text var unary binary group call
    (by simp) (fun e es ihe ihes => by simpa using ⟨ihe, ihes⟩) e

end Expr
end Easel
