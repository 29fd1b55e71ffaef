import Easel.Expr
import Easel.Fault
import Easel.Studio

/-!
# Easel.Expr.Eval

Evaluation of expressions. It reads the studio and changes nothing, and every part of an expression
is evaluated: the logical operators do not stop early.

A chain of binary operators is walked down its left operands first. The operators met on the way
wait in a list, innermost first, and are then applied one after the other (`Pending.resume`). The
left operand of each is checked before the right one is looked at.
-/

namespace Easel

/-- What an operation is called in a type mismatch. -/
def UnaryOp.context : UnaryOp → String
  | .neg => "unary `-`"
  | .not => "`!`"

def BinaryOp.context (op : BinaryOp) : String := "`" ++ op.symbol ++ "`"

/-- The result of an operation that fails only by leaving 64 bits. -/
def orOverflow : Option Number → Except RunFault Number
  | some n => .ok n
  | none => .error .overflow

def UnaryOp.apply : UnaryOp → Value → Except RunFault Value
  | .neg, .number n => do return .number (← orOverflow n.neg?)
  | .not, .bool b => .ok (.bool !b)
  | .neg, .bool _ => .error (.typeMismatch UnaryOp.neg.context .number .boolean)
  | .not, .number _ => .error (.typeMismatch UnaryOp.not.context .boolean .number)

def ArithOp.apply (a b : Number) : ArithOp → Except RunFault Number
  | .add => orOverflow (a.add? b)
  | .sub => orOverflow (a.sub? b)
  | .mul => orOverflow (a.mul? b)
  | .div => if b = 0 then .error .divisionByZero else orOverflow (a.div? b)
  | .mod => if b = 0 then .error .divisionByZero else orOverflow (a.mod? b)
  | .pow => if b < 0 then .error .negativeExponent else orOverflow (a.pow? b.toInt.toNat)

def OrderOp.holds (a b : Number) : OrderOp → Bool
  | .lt => decide (a < b)
  | .gt => decide (b < a)
  | .le => decide (a ≤ b)
  | .ge => decide (b ≤ a)

def EqualityOp.holds (a b : Value) : EqualityOp → Bool
  | .eq => decide (a = b)
  | .ne => !decide (a = b)

def LogicOp.holds (a b : Bool) : LogicOp → Bool
  | .and => a && b
  | .or => a || b

namespace BinaryOp

/-- Checks the left operand. -/
def checkLeft (op : BinaryOp) (a : Value) : Except RunFault Unit :=
  match op.operandTy? with
  | none => .ok ()
  | some ty => if a.ty = ty then .ok () else .error (.typeMismatch op.context ty a.ty)

/-- Applies an operator to a left operand that has passed its check and a right operand. -/
def apply : BinaryOp → Value → Value → Except RunFault Value
  | .arith op, .number a, .number b => do return .number (← op.apply a b)
  | .order op, .number a, .number b => .ok (.bool (op.holds a b))
  | .equality op, .number a, .number b => .ok (.bool (op.holds (.number a) (.number b)))
  | .equality op, .bool a, .bool b => .ok (.bool (op.holds (.bool a) (.bool b)))
  | .logic op, .bool a, .bool b => .ok (.bool (op.holds a b))
  | op, a, b => .error (.typeMismatch op.context (op.operandTy?.getD a.ty) b.ty)

end BinaryOp

/-- An argument as a query or a command sees it: its text, if it is a string literal, and what it
evaluates to. -/
structure Argument where
  text? : Option String
  value : Except RunFault Value

namespace Argument

def number (context : String) (a : Argument) : Except RunFault Number :=
  match a.value with
  | .error f => .error f
  | .ok (.number n) => .ok n
  | .ok (.bool _) => .error (.typeMismatch context .number .boolean)

def position (context : String) (x y : Argument) : Except RunFault Position := do
  let x ← x.number context
  let y ← y.number context
  return ⟨x, y⟩

def color (a : Argument) : Except RunFault Color :=
  match a.text? with
  | some s =>
    match Color.ofName? s with
    | some c => .ok c
    | none => .error (.invalidColor ("\"" ++ s ++ "\""))
  | none =>
    match a.value with
    | .error f => .error f
    | .ok v => .error (.invalidColor v.text)

end Argument

namespace Query

/-- The answer to a query, if it is asked with as many arguments as it takes. -/
def answer (w : Studio) (q : Query) (args : List Argument) : Except RunFault Value :=
  match q, args with
  | .actualX, [] => .ok (.number w.robot.cursor.x)
  | .actualY, [] => .ok (.number w.robot.cursor.y)
  | .canvasSize, [] => .ok (.number w.canvas.size)
  | .colorCount, [color, x₁, y₁, x₂, y₂] => do
    let color ← color.color
    let p ← Argument.position q.keyword x₁ y₁
    let p' ← Argument.position q.keyword x₂ y₂
    return .number (w.canvas.colorCount color p p')
  | .isBrushColor, [color] => do
    let color ← color.color
    return .bool (decide (w.robot.brush.color = color))
  | .isBrushSize, [size] => do
    let size ← size.number q.keyword
    return .bool (decide (w.robot.brush.size = size))
  | .isCanvasColor, [color, x, y] => do
    let color ← color.color
    let p ← Argument.position q.keyword x y
    return .bool (decide (w.canvas.pixel? p = some color))
  | _, _ => .error (.argumentCount q.keyword q.params.length args.length)

end Query

/-- An operator that waits for its left operand, and the outcome of its right one. -/
structure Pending where
  op : BinaryOp
  rhs : Except RunFault Value

/-- Feeds a value to the operators that wait for it, the first one first. -/
def Pending.resume : List Pending → Value → Except RunFault Value
  | [], v => .ok v
  | p :: rest, v => do
    p.op.checkLeft v
    let r ← p.rhs
    let x ← p.op.apply v r
    resume rest x

namespace Expr

mutual

/-- Evaluates an expression and feeds the value to the operators that wait for it. -/
def evalOnto (w : Studio) : Expr → List Pending → Except RunFault Value
  | .number n, waiting => Pending.resume waiting (.number n)
  | .bool b, waiting => Pending.resume waiting (.bool b)
  | .text _, _ => .error .unexpectedString
  | .var x, waiting =>
    match w.robot.valueOf? x with
    | some v => Pending.resume waiting v
    | none => .error (.undefinedVariable x)
  | .unary op e, waiting => do
    let v ← evalOnto w e []
    let x ← op.apply v
    Pending.resume waiting x
  | .binary l op r, waiting => evalOnto w l (⟨op, evalOnto w r []⟩ :: waiting)
  | .group e, waiting => do
    let v ← evalOnto w e []
    Pending.resume waiting v
  | .call q args, waiting => do
    let v ← q.answer w (argumentsOf w args)
    Pending.resume waiting v

def argumentsOf (w : Studio) : List Expr → List Argument
  | [] => []
  | e :: es => ⟨e.text?, evalOnto w e []⟩ :: argumentsOf w es

end

def eval (w : Studio) (e : Expr) : Except RunFault Value := evalOnto w e []

end Expr
end Easel
