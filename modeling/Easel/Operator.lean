import Easel.Value

/-!
# Easel.Operator

Unary and binary operators. The binary ones come in four families, which fix the types of their
operands and of their result; each has a left and a right binding power, which fix how a chain of
them groups.
-/

namespace Easel

inductive UnaryOp where
  | neg
  | not
deriving DecidableEq, Repr

def UnaryOp.symbol : UnaryOp → String
  | .neg => "-"
  | .not => "!"

inductive ArithOp where
  | add
  | sub
  | mul
  | div
  | mod
  | pow
deriving DecidableEq, Repr

inductive OrderOp where
  | lt
  | gt
  | le
  | ge
deriving DecidableEq, Repr

inductive EqualityOp where
  | eq
  | ne
deriving DecidableEq, Repr

inductive LogicOp where
  | and
  | or
deriving DecidableEq, Repr

inductive BinaryOp where
  | arith (op : ArithOp)
  | order (op : OrderOp)
  | equality (op : EqualityOp)
  | logic (op : LogicOp)
deriving DecidableEq, Repr

namespace BinaryOp

def isArithmetic : BinaryOp → Bool
  | .arith _ => true
  | _ => false

def isRelational : BinaryOp → Bool
  | .order _ => true
  | _ => false

def isEquality : BinaryOp → Bool
  | .equality _ => true
  | _ => false

def isLogical : BinaryOp → Bool
  | .logic _ => true
  | _ => false

def symbol : BinaryOp → String
  | .arith .add => "+"
  | .arith .sub => "-"
  | .arith .mul => "*"
  | .arith .div => "/"
  | .arith .mod => "%"
  | .arith .pow => "**"
  | .order .lt => "<"
  | .order .gt => ">"
  | .order .le => "<="
  | .order .ge => ">="
  | .equality .eq => "=="
  | .equality .ne => "!="
  | .logic .and => "&&"
  | .logic .or => "||"

def all : List BinaryOp :=
  [.arith .add, .arith .sub, .arith .mul, .arith .div, .arith .mod, .arith .pow,
    .order .lt, .order .gt, .order .le, .order .ge, .equality .eq, .equality .ne,
    .logic .and, .logic .or]

def ofSymbol? (s : String) : Option BinaryOp :=
  all.find? fun op => op.symbol == s

/-- How strongly the operator holds the operand on its left. -/
def leftPower : BinaryOp → Nat
  | .logic .or => 1
  | .logic .and => 3
  | .equality _ => 5
  | .order _ => 7
  | .arith .add | .arith .sub => 9
  | .arith .mul | .arith .div | .arith .mod => 11
  | .arith .pow => 14

/-- How strongly the operator holds the operand on its right. It is one more than the left power,
so that equals group to the left, except for the power operator, which groups to the right. -/
def rightPower : BinaryOp → Nat
  | .logic .or => 2
  | .logic .and => 4
  | .equality _ => 6
  | .order _ => 8
  | .arith .add | .arith .sub => 10
  | .arith .mul | .arith .div | .arith .mod => 12
  | .arith .pow => 13

/-- The type both operands must have; equality takes any two values of one type. -/
def operandTy? : BinaryOp → Option Ty
  | .arith _ | .order _ => some .number
  | .equality _ => none
  | .logic _ => some .boolean

end BinaryOp

/-- A unary operator holds its operand more strongly than any binary one. -/
def UnaryOp.power : Nat := 15

end Easel
