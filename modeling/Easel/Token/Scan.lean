import Easel.Fault
import Easel.Token

/-!
# Easel.Token.Scan

From text to tokens. At each place the longest spelling wins, and a keyword wins over the name
that is spelled alike; blanks between tokens are dropped.

* `Token.munch` finds the token that starts with a given character.
* `Token.scan` cuts a whole text and ends it with one end mark.
-/

namespace Easel

/-- The characters that separate tokens and belong to none. -/
def isBlank (c : Char) : Bool :=
  c == ' ' || c == '\t' || c == '\r' || c == '\x0c'

def isWordChar (c : Char) : Bool := c.isAlphanum || c == '_'

def isQuotable (c : Char) : Bool := c != '"' && c != '\n'

/-- The value of a run of decimal digits. -/
def decimalValue (digits : List Char) : Nat :=
  digits.foldl (fun n c => 10 * n + (c.toNat - '0'.toNat)) 0

namespace Token

/-- The kind of the token that starts with `c` when `cs` follows, and how many characters of `cs`
belong to it. -/
def munch (c : Char) (cs : List Char) : Except ScanFault (TokenKind × Nat) :=
  if c.isDigit then
    let more := cs.takeWhile Char.isDigit
    match Number.ofInt? (decimalValue (c :: more)) with
    | some n => .ok (.number n, more.length)
    | none => .error (.numberOutOfRange (String.ofList (c :: more)))
  else if c.isAlpha then
    let more := cs.takeWhile isWordChar
    .ok (.ofWord (String.ofList (c :: more)), more.length)
  else if c = '"' then
    let body := cs.takeWhile isQuotable
    if cs[body.length]? = some '"' then .ok (.text (String.ofList body), body.length + 1)
    else .error .unterminatedString
  else
    match TokenKind.symbols.find? fun s => s.1.isPrefixOf (c :: cs) with
    | some (spelling, kind) => .ok (kind, spelling.length - 1)
    | none => .error (.unrecognizedCharacter c)

/-- The line after a token of the given kind. -/
def lineAfter (kind : TokenKind) (line : Nat) : Nat :=
  if kind = .newLine then line + 1 else line

/-- Scans text that starts on the given line. The first `taken` characters belong to a token that
is already cut off. -/
def scanFrom (line taken : Nat) : List Char → Except Diagnostic (List Token)
  | [] => .ok [⟨.endOfInput, "", line⟩]
  | c :: cs =>
    match taken with
    | k + 1 => scanFrom line k cs
    | 0 =>
      if isBlank c then scanFrom line 0 cs
      else
        match munch c cs with
        | .error f => .error ⟨line, .scan f⟩
        | .ok (kind, n) =>
          match scanFrom (lineAfter kind line) n cs with
          | .error d => .error d
          | .ok ts => .ok (⟨kind, String.ofList (c :: cs.take n), line⟩ :: ts)

def scan (text : String) : Except Diagnostic (List Token) := scanFrom 1 0 text.toList

end Token
end Easel
