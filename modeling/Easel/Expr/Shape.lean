import Easel.Expr

/-!
# Easel.Expr.Shape

What an expression is before it runs: numeric, boolean, both or neither. A variable has a type
only when it runs, so it passes as either; whether queries pass depends on the place.

Both tests walk a chain of operators link by link (`numericChain`, `booleanChain`): the right
operand of a link is tested, and then the walk goes on with the link on its left, so a chain of any
length needs no room. The walk is over at the first link that fails, or else at an operand that is
no link of the chain, which is tested like any other expression.
-/

namespace Easel

/-- Where an expression stands. -/
inductive Place where
  /-- An assigned or discarded value: queries are welcome. -/
  | value
  /-- A command argument or a jump condition: no queries. -/
  | control
deriving DecidableEq, Repr

namespace Expr

/-- How many nodes a test can come to. The arguments of a query are none of them. -/
def weight : Expr → Nat
  | .number _ | .bool _ | .text _ | .var _ | .call _ _ => 1
  | .unary _ e | .group e => e.weight + 1
  | .binary l _ r => l.weight + r.weight + 1

-- A walk tests the operand it ends at as it stands, so the recursion goes by the weight and not by
-- the tree. Semireducible, the tests still compute.
mutual

@[semireducible] def isNumeric (place : Place) : Expr → Bool
  | .number _ => true
  | .bool _ => false
  | .text _ => false
  | .var _ => true
  | .unary .neg e => e.isNumeric place
  | .unary .not _ => false
  | .binary l op r => numericChain place l op r
  | .group e => e.isNumeric place
  | .call q _ => place == .value && q.ty == .number
termination_by e => 2 * e.weight
decreasing_by all_goals grind [weight]

/-- A chain of arithmetic operators, from the link with the given operands on. -/
@[semireducible] def numericChain (place : Place) (l : Expr) (op : BinaryOp) (r : Expr) : Bool :=
  if op.isArithmetic && r.isNumeric place then
    match l with
    | .binary l' op' r' => numericChain place l' op' r'
    | e => e.isNumeric place
  else false
termination_by 2 * (l.weight + r.weight) + 1
decreasing_by all_goals grind [weight]

end

mutual

@[semireducible] def isBoolean (place : Place) : Expr → Bool
  | .number _ => false
  | .bool _ => true
  | .text _ => false
  | .var _ => true
  | .unary .neg _ => false
  | .unary .not e => e.isBoolean place
  | .binary l (.logic _) r => booleanChain place l r
  | .binary l (.order _) r => l.isNumeric place && r.isNumeric place
  | .binary l (.equality _) r =>
    (l.isNumeric place && r.isNumeric place) || (l.isBoolean place && r.isBoolean place)
  | .binary _ (.arith _) _ => false
  | .group e => e.isBoolean place
  | .call q _ => place == .value && q.ty == .boolean
termination_by e => 2 * e.weight
decreasing_by all_goals grind [weight]

/-- A chain of logical operators, from the link with the given operands on. -/
@[semireducible] def booleanChain (place : Place) (l r : Expr) : Bool :=
  if r.isBoolean place then
    match l with
    | .binary l' (.logic _) r' => booleanChain place l' r'
    | e => e.isBoolean place
  else false
termination_by 2 * (l.weight + r.weight) + 1
decreasing_by all_goals grind [weight]

end

/-- The type an expression is taken to have; one that passes as both counts as a number. -/
def shape? (place : Place) (e : Expr) : Option Ty :=
  if e.isNumeric place then some .number
  else if e.isBoolean place then some .boolean
  else none

end Expr
end Easel
