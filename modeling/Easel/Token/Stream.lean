import Easel.Fault
import Easel.Token

/-!
# Easel.Token.Stream

Tokens in the order they are read, and the parsers that read them. A stream ends in a mark that
can be looked at and never be taken, so reading past the end is not possible; tokens behind the
mark are out of reach and are not kept.

A parser keeps its place when it fails: whoever asks next goes on from there.
-/

namespace Easel

structure Stream where
  /-- The tokens not yet taken. -/
  rest : List Token
  /-- What the end mark is spelled like. -/
  endLexeme : String
  /-- The line of the end mark. -/
  endLine : Nat
deriving DecidableEq, Repr

namespace Stream

/-- The stream of a list of tokens: up to its first end mark or, if it has none, with one on the
line of its last token. -/
def ofTokens (ts : List Token) : Stream :=
  let rest := ts.takeWhile fun t => t.kind ≠ .endOfInput
  match ts.find? fun t => t.kind = .endOfInput with
  | some mark => ⟨rest, mark.lexeme, mark.line⟩
  | none => ⟨rest, "", (ts.getLast?.map Token.line).getD 1⟩

def mark (s : Stream) : Token := ⟨.endOfInput, s.endLexeme, s.endLine⟩

def current (s : Stream) : Token := s.rest.headD s.mark

/-- The token after the current one. -/
def following (s : Stream) : Token := s.rest.tail.headD s.mark

def advance (s : Stream) : Stream := { s with rest := s.rest.tail }

end Stream

abbrev Parser := EStateM Diagnostic Stream

namespace Parser

def peek : Parser Token := do return (← get).current

/-- Takes the current token, unless it is the end mark. -/
def next : Parser Token := do
  let s ← get
  set s.advance
  return s.current

def atEnd : Parser Bool := do return (← get).rest.isEmpty

def fail {α : Type} (line : Nat) (fault : Fault) : Parser α := throw ⟨line, fault⟩

/-- Fails at the current token. -/
def unexpected {α : Type} (expected : String) : Parser α := do
  let t ← peek
  fail t.line (.grammar (.unexpectedToken expected t.describe))

/-- Takes the current token if it is of the given kind, and tells whether it was. -/
def eat (kind : TokenKind) : Parser Bool := do
  if (← peek).kind = kind then
    let _ ← next
    return true
  else return false

def expect (kind : TokenKind) (expected : String) : Parser Unit := do
  if !(← eat kind) then unexpected expected

/-- Goes on with what a check found, or fails with its fault on the given line. -/
def require {α : Type} (line : Nat) : Except Fault α → Parser α
  | .ok a => return a
  | .error f => fail line f

end Parser
end Easel
