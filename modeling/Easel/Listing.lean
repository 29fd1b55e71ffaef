import Easel.Source
import Easel.Studio
import Easel.Text.Quoted
import Easel.Token

/-!
# Easel.Listing

How tokens, strokes and the robot are listed, a line each. Values with parts are written as
records: a name, and the parts by name between braces.
-/

namespace Easel

namespace TokenKind

def operatorTitle : BinaryOp → String
  | .arith .add => "Plus"
  | .arith .sub => "Minus"
  | .arith .mul => "Asterisk"
  | .arith .div => "Slash"
  | .arith .mod => "Percent"
  | .arith .pow => "AsteriskAsterisk"
  | .order .lt => "LessThan"
  | .order .gt => "GreaterThan"
  | .order .le => "LessThanEquals"
  | .order .ge => "GreaterThanEquals"
  | .equality .eq => "EqualsEquals"
  | .equality .ne => "NotEquals"
  | .logic .and => "AndAnd"
  | .logic .or => "OrOr"

/-- The name of a kind of token. -/
def title : TokenKind → String
  | .number _ => "NumberLit"
  | .bool _ => "BoolLit"
  | .text _ => "StringLit"
  | .name _ => "Identifier"
  | .not => "LogicalNot"
  | .operator op => operatorTitle op
  | .arrow => "Arrow"
  | .openParen => "OpenParen"
  | .closeParen => "CloseParen"
  | .openBracket => "OpenBracket"
  | .closeBracket => "CloseBracket"
  | .comma => "Comma"
  | .newLine => "NewLine"
  | .command c => c.keyword
  | .query q => q.keyword
  | .goTo => "GoTo"
  | .invalid => "Error"
  | .endOfInput => "EndOfInput"

/-- The name of a kind and, in parentheses, what it carries. -/
def listing (k : TokenKind) : String :=
  match k with
  | .number n => k.title ++ "(" ++ n.text ++ ")"
  | .bool b => k.title ++ "(" ++ (Value.bool b).text ++ ")"
  | .text s => k.title ++ "(" ++ Text.quoted s ++ ")"
  | .name s => k.title ++ "(" ++ Text.quoted s ++ ")"
  | _ => k.title

end TokenKind

def Token.listing (t : Token) : String :=
  Source.alignRight 4 (toString t.line) ++ " " ++ t.kind.listing ++ "\n"

/-- A record with the given name and parts. -/
def record (name : String) (parts : List (String × String)) : String :=
  name ++ " \x7b " ++ ", ".intercalate (parts.map fun p => p.1 ++ ": " ++ p.2) ++ " \x7d"

def Position.listing (p : Position) : String :=
  record "Position" [("x", p.x.text), ("y", p.y.text)]

def Brush.listing (b : Brush) : String :=
  record "Brush" [("color", b.color.name), ("size", b.size.text)]

def Stroke.listing : Stroke → String
  | .line p q b => record "Line" [("from", p.listing), ("to", q.listing), ("brush", b.listing)]
  | .circle p r b =>
    record "Circle" [("center", p.listing), ("radius", r.text), ("brush", b.listing)]
  | .rectangle p w h b =>
    record "Rectangle"
      [("center", p.listing), ("width", w.text), ("height", h.text), ("brush", b.listing)]
  | .fill p b => record "Fill" [("at", p.listing), ("brush", b.listing)]

/-- Where the robot stands and what it paints with. -/
def Robot.stance (r : Robot) : String :=
  "cursor (" ++ r.cursor.x.text ++ ", " ++ r.cursor.y.text ++ "), brush " ++
    r.brush.color.name ++ " size " ++ r.brush.size.text ++ "\n"

def variableListing (v : String × Value) : String := v.1 ++ " = " ++ v.2.text ++ "\n"

end Easel
