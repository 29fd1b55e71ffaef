import Easel.Operator
import Easel.Keyword

/-!
# Easel.Token

Tokens: what a piece of the text is, the piece itself, and its line. A kind and its piece need not
agree in a token that was not scanned.
-/

namespace Easel

inductive TokenKind where
  | number (n : Number)
  | bool (b : Bool)
  | text (s : String)
  | name (s : String)
  | not
  | operator (op : BinaryOp)
  | arrow
  | openParen
  | closeParen
  | openBracket
  | closeBracket
  | comma
  | newLine
  | command (c : Command)
  | query (q : Query)
  | goTo
  | invalid
  | endOfInput
deriving DecidableEq, Repr

namespace TokenKind

def binaryOp? : TokenKind → Option BinaryOp
  | .operator op => some op
  | _ => none

/-- The kind of a word: a keyword, a truth value, or else a name. -/
def ofWord (word : String) : TokenKind :=
  if word = "true" then .bool true
  else if word = "false" then .bool false
  else if word = "GoTo" then .goTo
  else
    match Command.ofKeyword? word with
    | some c => .command c
    | none =>
      match Query.ofKeyword? word with
      | some q => .query q
      | none => .name word

/-- Operators, punctuation and the newline with their spellings. A spelling stands before those it
extends. -/
def symbols : List (List Char × TokenKind) :=
  [(['*', '*'], .operator (.arith .pow)),
    (['&', '&'], .operator (.logic .and)),
    (['|', '|'], .operator (.logic .or)),
    (['=', '='], .operator (.equality .eq)),
    (['!', '='], .operator (.equality .ne)),
    (['>', '='], .operator (.order .ge)),
    (['<', '='], .operator (.order .le)),
    (['<', '-'], .arrow),
    (['!'], .not),
    (['+'], .operator (.arith .add)),
    (['-'], .operator (.arith .sub)),
    (['*'], .operator (.arith .mul)),
    (['/'], .operator (.arith .div)),
    (['%'], .operator (.arith .mod)),
    (['>'], .operator (.order .gt)),
    (['<'], .operator (.order .lt)),
    (['('], .openParen),
    ([')'], .closeParen),
    (['['], .openBracket),
    ([']'], .closeBracket),
    ([','], .comma),
    (['\n'], .newLine)]

end TokenKind

structure Token where
  kind : TokenKind
  lexeme : String
  line : Nat
deriving DecidableEq, Repr

/-- How diagnostics speak of a token. -/
def Token.describe (t : Token) : String :=
  match t.kind with
  | .newLine => "newline"
  | .endOfInput => "end of input"
  | _ => t.lexeme

end Easel
