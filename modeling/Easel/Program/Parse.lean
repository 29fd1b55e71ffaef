import Easel.Expr.Parse
import Easel.Program

/-!
# Easel.Program.Parse

From tokens to programs: statements, each ended by a newline or the end of the input, with blank
lines anywhere between them.

A statement is told by its first token: a command or a query by the spelling, an assignment or a
label by the name and the token after it, a jump by its keyword.
-/

namespace Easel

namespace Parser

def labelStmt (name : String) : Parser Stmt := do
  let t ← next
  return ⟨t.line, .label name⟩

def labelName : Parser String := do
  match (← peek).kind with
  | .name l =>
    let _ ← next
    return l
  | _ => unexpected "a label name"

def skipNewLines : Parser Unit :=
  modify fun s => { s with rest := s.rest.dropWhile fun t => t.kind = .newLine }

def endOfStmt : Parser Unit := do
  if ← atEnd then return ()
  else expect .newLine "a newline after the statement"

end Parser

namespace Rule

open Fueled (spent)
open Easel.Parser (peek next atEnd expect fail require labelStmt labelName skipNewLines endOfStmt)

variable {m : Type → Type} [Monad m] [MonadLiftT Parser m] [Fueled m]

/-- Reads a command whose keyword is the current token. -/
def commandStmt (b : Budget) (c : Command) : m Stmt := do
  let t ← next
  let s ← (get : Parser Stream)
  let args ← arguments (b.fuel s) c.keyword t.line
  require t.line (Param.checkAll c.keyword c.params args)
  return ⟨t.line, .command c args⟩

/-- Reads an expression and the type it is taken to have. -/
def typedExpr (b : Budget) (line : Nat) : m (Expr × Ty) := do
  let e ← expr b
  match e.shape? .value with
  | some ty => return (e, ty)
  | none => fail line (.static .untypedExpression)

def discardStmt (b : Budget) : m Stmt := do
  let t ← peek
  let (e, _) ← typedExpr b t.line
  return ⟨t.line, .discard e⟩

/-- Reads an assignment to the variable that is the current token. -/
def assignStmt (b : Budget) (name : String) : m Stmt := do
  let t ← next
  expect .arrow "`<-`"
  let (e, ty) ← typedExpr b t.line
  return ⟨t.line, .assign name ty e⟩

def goToStmt (b : Budget) : m Stmt := do
  let t ← next
  expect .openBracket "`[`"
  let label ← labelName
  expect .closeBracket "`]`"
  expect .openParen "`(`"
  let condition ← expr b
  expect .closeParen "`)`"
  if condition.isBoolean .control then return ⟨t.line, .goTo label condition⟩
  else fail t.line (.static (.nonBooleanCondition label))

def stmt (b : Budget) : m Stmt := do
  let s ← (get : Parser Stream)
  let t := s.current
  match Command.ofKeyword? t.lexeme, Query.ofKeyword? t.lexeme with
  | some c, _ => commandStmt b c
  | none, some _ => discardStmt b
  | none, none =>
    match t.kind, s.following.kind with
    | .name x, .arrow => assignStmt b x
    | .name l, .newLine => labelStmt l
    | .name l, .endOfInput => labelStmt l
    | .goTo, _ => goToStmt b
    | _, _ => fail t.line (.grammar (.unknownStatement t.describe))

/-- Reads statements to the end of the input; every one of them takes a token and one from
`fuel`. -/
def stmts (b : Budget) : Nat → m Program
  | 0 => spent (return [])
  | fuel + 1 => do
    skipNewLines
    if ← atEnd then return []
    else
      let s ← stmt b
      endOfStmt
      let rest ← stmts b fuel
      return s :: rest

def program (b : Budget) : m Program := do
  let s ← (get : Parser Stream)
  stmts b (b.statements s)

end Rule

namespace Parser

abbrev commandStmt (c : Command) : Parser Stmt := Rule.commandStmt budget c

abbrev typedExpr (line : Nat) : Parser (Expr × Ty) := Rule.typedExpr budget line

abbrev discardStmt : Parser Stmt := Rule.discardStmt budget

abbrev assignStmt (name : String) : Parser Stmt := Rule.assignStmt budget name

abbrev goToStmt : Parser Stmt := Rule.goToStmt budget

abbrev stmt : Parser Stmt := Rule.stmt budget

abbrev stmts (fuel : Nat) : Parser Program := Rule.stmts budget fuel

abbrev program : Parser Program := Rule.program budget

/-- The result of a parser on a list of tokens. -/
def run {α : Type} (p : Parser α) (ts : List Token) : Except Diagnostic α :=
  match EStateM.run p (Stream.ofTokens ts) with
  | .ok a _ => .ok a
  | .error d _ => .error d

end Parser

/-- The program that a list of tokens spells. -/
def Program.parse (ts : List Token) : Except Diagnostic Program := Parser.program.run ts

end Easel
