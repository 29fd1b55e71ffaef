import Easel.Color
import Easel.Expr.Shape
import Easel.Token.Stream

/-!
# Easel.Expr.Parse

From tokens to expressions, by operator precedence. An operand is followed by operators as long as
they hold it at least as strongly as the surroundings do; each of them takes a right operand under
its own right power.

Every call takes one from `fuel`. `Stream.fuel` bounds the calls that the tokens of a stream can
cause: two for every token and three more.

The rules are written once, for every monad that parsers can be used in; `Fueled` says what becomes
of a parser there when its fuel is used up. `Parser.exprWithin` and its companions are the rules
among parsers.
-/

namespace Easel

namespace Param

/-- Checks one argument of `name`. -/
def check (name : String) (position : Nat) : Param → Expr → Except Fault Unit
  | .color, e =>
    match e.text? with
    | some s =>
      match Color.ofName? s with
      | some _ => .ok ()
      | none => .error (.static (.unknownColor name s))
    | none => .error (.static (.invalidArgument name position Param.color.text))
  | .numeric, e =>
    if e.isNumeric .control then .ok ()
    else .error (.static (.invalidArgument name position Param.numeric.text))

/-- Checks arguments one by one, as far as there are parameters for them. -/
def checkEach (name : String) (position : Nat) : List Param → List Expr → Except Fault Unit
  | p :: ps, e :: es =>
    match p.check name position e with
    | .ok () => checkEach name (position + 1) ps es
    | .error f => .error f
  | _, _ => .ok ()

/-- Checks an argument list: first how many there are, then each of them. -/
def checkAll (name : String) (params : List Param) (args : List Expr) : Except Fault Unit :=
  if args.length ≠ params.length then
    .error (.grammar (.argumentCount name params.length args.length))
  else checkEach name 1 params args

end Param

/-- What becomes of a parser when its fuel is used up. -/
class Fueled (m : Type → Type) where
  spent : {α : Type} → Parser α → m α

/-- A parser answers all the same. -/
instance : Fueled Parser := ⟨id⟩

/-- What the rules are granted on a stream. -/
structure Budget where
  /-- The fuel that an expression starts with. -/
  fuel : Stream → Nat
  /-- How many statements a program may have. -/
  statements : Stream → Nat

def Stream.fuel (s : Stream) : Nat := 2 * s.rest.length + 3

namespace Rule

open Fueled (spent)
open Easel.Parser (peek next eat expect unexpected fail require)

variable {m : Type → Type} [Monad m] [MonadLiftT Parser m] [Fueled m]

/-- Reads a query, which is known by the spelling of the current token `t`; `arguments` reads its
arguments. -/
def query (arguments : String → Nat → m (List Expr)) (t : Token) : m Expr :=
  match Query.ofKeyword? t.lexeme with
  | none => unexpected "an expression"
  | some q => do
    let _ ← next
    let args ← arguments q.keyword t.line
    require t.line (Param.checkAll q.keyword q.params args)
    return .call q args

mutual

/-- Reads an expression whose operators hold their left operands at least as strongly as
`power`. -/
def exprWithin : Nat → Nat → m Expr
  | 0, _ => spent (unexpected "an expression")
  | fuel + 1, power => do
    let e ← operand fuel
    operators fuel power e
termination_by structural fuel => fuel

/-- Reads the operators that follow `lhs`, with their right operands. -/
def operators : Nat → Nat → Expr → m Expr
  | 0, _, lhs => spent (return lhs)
  | fuel + 1, power, lhs => do
    match (← peek).kind.binaryOp? with
    | none => return lhs
    | some op =>
      if op.leftPower < power then return lhs
      else
        let _ ← next
        let rhs ← exprWithin fuel op.rightPower
        operators fuel power (.binary lhs op rhs)
termination_by structural fuel => fuel

/-- Reads an operand: a literal, a variable, a group, a unary operator with its operand, or a
query. -/
def operand : Nat → m Expr
  | 0 => spent (unexpected "an expression")
  | fuel + 1 => do
    let t ← peek
    match t.kind with
    | .number n =>
      let _ ← next
      return .number n
    | .bool b =>
      let _ ← next
      return .bool b
    | .text s =>
      let _ ← next
      return .text s
    | .name x =>
      let _ ← next
      return .var x
    | .openParen =>
      let _ ← next
      let e ← exprWithin fuel 0
      expect .closeParen "`)`"
      return .group e
    | .not =>
      let _ ← next
      let e ← exprWithin fuel UnaryOp.power
      return .unary .not e
    | .operator (.arith .sub) =>
      let _ ← next
      let e ← exprWithin fuel UnaryOp.power
      return .unary .neg e
    | _ => query (arguments fuel) t
termination_by structural fuel => fuel

/-- Reads the arguments of `name` in their parentheses. -/
def arguments : Nat → String → Nat → m (List Expr)
  | 0, _, _ => spent (unexpected "an expression")
  | fuel + 1, name, line => do
    expect .openParen "`(`"
    if ← eat .closeParen then return []
    else moreArguments fuel name line
termination_by structural fuel => fuel

/-- Reads at least one argument and the parenthesis that closes the list. -/
def moreArguments : Nat → String → Nat → m (List Expr)
  | 0, _, _ => spent (unexpected "an expression")
  | fuel + 1, name, line => do
    let e ← exprWithin fuel 0
    if ← eat .comma then
      let t ← peek
      if t.kind = .closeParen ∨ t.kind = .newLine ∨ t.kind = .endOfInput then
        fail line (.grammar (.trailingComma name))
      else
        let es ← moreArguments fuel name line
        return e :: es
    else if ← eat .closeParen then return [e]
    else
      let t ← peek
      fail line (.grammar (.missingCloseParen name t.describe))
termination_by structural fuel => fuel

end

/-- Reads an expression and stops before the first token that cannot continue it. -/
def expr (b : Budget) : m Expr := do
  let s ← (get : Parser Stream)
  exprWithin (b.fuel s) 0

end Rule

namespace Parser

-- The rules as parsers follow them.

abbrev exprWithin (fuel power : Nat) : Parser Expr := Rule.exprWithin fuel power

abbrev operators (fuel power : Nat) (lhs : Expr) : Parser Expr := Rule.operators fuel power lhs

abbrev operand (fuel : Nat) : Parser Expr := Rule.operand fuel

abbrev arguments (fuel : Nat) (name : String) (line : Nat) : Parser (List Expr) :=
  Rule.arguments fuel name line

abbrev moreArguments (fuel : Nat) (name : String) (line : Nat) : Parser (List Expr) :=
  Rule.moreArguments fuel name line

/-- As much as the tokens of the stream can take. -/
def budget : Budget := ⟨Stream.fuel, fun s => s.rest.length + 1⟩

abbrev expr : Parser Expr := Rule.expr budget

/-- A parser that is used among parsers is itself. -/
theorem liftM_eq {α : Type} (p : Parser α) : (liftM p : Parser α) = p := rfl

end Parser
end Easel
